import Abacus.Chunk.Edit
import Abacus.Proofs.Program.Refinement
import Abacus.Sink.Bytes

/-
  Chunks built by whole instructions.

  An edit is safe if it adds a constant or a whole
  instruction. Safe edits leave code that is a list of
  tokens, whose indices are in the pool and of which no more
  push a constant than the pool has entries. A pool has as
  many entries as a stack has slots, so such code cannot
  overflow the stack.

  Main declarations:
    * `Edit.IsSafe`
    * `Chunk.Built`
    * `Chunk.built_ofEdits`
    * `Program.exec_tokens_fault`
    * `Machine.interpret_safe_edits`
-/

------------------------------------------------------------
-- Lists Of Tokens
------------------------------------------------------------

namespace Abacus

namespace Token

/- The index of a constant is in a pool of `size` entries. -/
def Within
    (size : Nat) :
    Token → Prop
| .constant index => index.toNat < size
| _ => True

/- The number of constants that a token pushes. -/
def pushes :
    Token → Nat
| .constant _ => 1
| _ => 0

/- A larger pool has the same indices. -/
theorem Within.mono
    {token : Token}
    {size size' : Nat}
    (hWithin : token.Within size)
    (hLe : size ≤ size') :
    token.Within size' := by
  cases token with
  | constant index => exact Nat.lt_of_lt_of_le hWithin hLe
  | _ => trivial

/-
  With its index in the pool and room for what it pushes, a
  token goes on, returns, or lacks arguments.
-/
theorem effect_of_within
    {token : Token}
    {pool values : List Number}
    (hWithin : token.Within pool.length)
    (hRoom :
      values.length + token.pushes ≤ Stack.capacity) :
    (∃ values',
        token.effect pool values = .ok values' ∧
          values'.length ≤ values.length + token.pushes) ∨
      token.effect pool values = .error none ∨
      token.effect pool values =
        .error (some .stackUnderflow) := by
  cases token with
  | constant index =>
      have hIndex : index.toNat < pool.length := hWithin
      have hFree : values.length < Stack.capacity := hRoom
      left
      refine ⟨pool[index.toNat] :: values, ?_, ?_⟩
      · simp [effect, hIndex, hFree]
      · simp [pushes]
  | negate =>
      cases values with
      | nil => exact .inr (.inr rfl)
      | cons value rest =>
          exact .inl ⟨_, rfl, Nat.le_refl _⟩
  | binary operator =>
      rcases values with _ | ⟨b, _ | ⟨a, rest⟩⟩
      · exact .inr
          (.inr (effect_binary_of_few (by simp) pool _))
      · exact .inr
          (.inr (effect_binary_of_few (by simp) pool _))
      · have hEffect := effect_binary pool operator a b rest
        exact .inl ⟨_, hEffect, by simp [pushes]⟩
  | ret => exact .inr (.inl rfl)

/- The number of constants that a list of tokens pushes. -/
def pushesAll :
    List Token → Nat
| [] => 0
| token :: tokens => token.pushes + pushesAll tokens

theorem pushesAll_append
    (tokens more : List Token) :
    pushesAll (tokens ++ more) =
      pushesAll tokens + pushesAll more := by
  induction tokens with
  | nil => simp [pushesAll]
  | cons token tokens ih =>
      simp only [List.cons_append, pushesAll, ih]
      omega

end Token

end Abacus

------------------------------------------------------------
-- Faults
------------------------------------------------------------

namespace Abacus

namespace Program

/- The only refusal is that of a limit. -/
theorem eq_of_refusal?_eq_some
    {limit : Option Nat}
    {steps : Nat}
    {cause : Cause}
    (hRefused : refusal? limit steps = some cause) :
    ∃ bound,
      limit = some bound ∧
        cause = .stepLimitExceeded bound := by
  rcases Option.map_eq_some_iff.mp hRefused with
    ⟨bound, hBound, hCause⟩
  exact ⟨bound, (Option.filter_eq_some_iff.mp hBound).1,
    hCause.symm⟩

/-
  Tokens with room for all that they push fail only for lack
  of arguments, at their end, or at the limit.
-/
theorem exec_tokens_fault
    {c : Chunk}
    {limit : Option Nat}
    {tokens : List Token}
    (hWithin :
      ∀ token ∈ tokens, token.Within c.constants.size)
    (offset steps : Nat)
    (values : List Number)
    (hRoom :
      values.length + Token.pushesAll tokens ≤
        Stack.capacity)
    {fault : Fault}
    (hFault :
      ((decode offset (tokens.flatMap Token.bytes)).exec
        c limit steps values).fault = some fault) :
    fault.cause = .stackUnderflow ∨
      fault.cause =
        .unexpectedEnd
          (offset +
            (tokens.flatMap Token.bytes).length) ∨
      ∃ bound,
        limit = some bound ∧
          fault.cause = .stepLimitExceeded bound := by
  induction tokens generalizing offset steps values with
  | nil =>
      rw [List.flatMap_nil, decode] at hFault
      cases hRefusal : refusal? limit steps with
      | some cause =>
          rw [exec_tail_of_refused hRefusal] at hFault
          cases hFault
          exact .inr (.inr (eq_of_refusal?_eq_some hRefusal))
      | none =>
          rw [exec_tail hRefusal] at hFault
          cases hFault
          exact .inr (.inl rfl)
  | cons token tokens ih =>
      rw [List.flatMap_cons, decode_token_append] at hFault
      rw [Token.pushesAll] at hRoom
      have hHead := hWithin token List.mem_cons_self
      have hRest :
          ∀ other ∈ tokens,
            other.Within c.constants.size := by
        intro other hOther
        exact hWithin other (List.mem_cons_of_mem _ hOther)
      cases hRefusal : refusal? limit steps with
      | some cause =>
          rw [exec_cons_of_refused hRefusal] at hFault
          cases hFault
          exact .inr (.inr (eq_of_refusal?_eq_some hRefusal))
      | none =>
          rw [← Array.length_toList] at hHead
          rcases Token.effect_of_within hHead
              (show
                values.length + token.pushes ≤
                  Stack.capacity by omega) with
            ⟨values', hEffect, hLength⟩ | hEffect | hEffect
          · rw [exec_cons_of_ok hRefusal hEffect] at hFault
            have hTail :=
              ih hRest (offset + token.width) (steps + 1)
                values' (by omega) hFault
            rw [List.flatMap_cons, List.length_append,
              ← Nat.add_assoc]
            exact hTail
          · rw [exec_cons_of_stop hRefusal hEffect] at hFault
            cases hFault
          · rw [exec_cons_of_stop hRefusal hEffect] at hFault
            cases hFault
            exact .inl rfl

end Program

end Abacus

------------------------------------------------------------
-- Safe Edits
------------------------------------------------------------

namespace Abacus

namespace Edit

/- An edit that adds a constant or a whole instruction. -/
def IsSafe :
    Edit → Prop
| .byte _ _ => False
| .op opcode _ => opcode ≠ .constant
| .constant _ => True
| .push _ _ => True

instance decidableIsSafe :
    (edit : Edit) → Decidable edit.IsSafe
| .byte _ _ => inferInstanceAs (Decidable False)
| .op opcode _ =>
    inferInstanceAs (Decidable (opcode ≠ .constant))
| .constant _ => inferInstanceAs (Decidable True)
| .push _ _ => inferInstanceAs (Decidable True)

end Edit

namespace Chunk

/-
  The code of a chunk is a list of tokens with indices in
  the pool, each entry of which accounts for one push.
-/
structure Built
    (c : Chunk)
    (tokens : List Token) : Prop where
  code : c.code.toList = tokens.flatMap Token.bytes
  indices : ∀ token ∈ tokens, token.Within c.constants.size
  pushes : Token.pushesAll tokens ≤ c.constants.size
  pool : c.constants.size ≤ poolCapacity

namespace Built

variable {c : Chunk}
variable {tokens : List Token}

theorem empty :
    Built .empty [] where
  code := rfl
  indices := by simp
  pushes := Nat.zero_le _
  pool := Nat.zero_le _

/- An opcode other than the constant is a whole token. -/
theorem emit
    (hBuilt : Built c tokens)
    {op : Opcode}
    (hOp : op ≠ .constant)
    (position : Position) :
    ∃ token, Built (c.emit op position) (tokens ++ [token]) := by
  have hToken :
      ∃ token : Token,
        token.bytes = [op.toByte] ∧
          token.pushes = 0 ∧
          token.Within c.constants.size := by
    cases op with
    | constant => exact absurd rfl hOp
    | negate => exact ⟨.negate, rfl, rfl, trivial⟩
    | binary operator =>
        exact ⟨.binary operator, rfl, rfl, trivial⟩
    | ret => exact ⟨.ret, rfl, rfl, trivial⟩
  rcases hToken with ⟨token, hBytes, hPushes, hWithin⟩
  refine ⟨token, ?_, ?_, ?_, hBuilt.pool⟩
  · simp [Chunk.emit, write, hBuilt.code, hBytes]
  · intro other hOther
    rcases List.mem_append.mp hOther with hOld | hNew
    · exact hBuilt.indices other hOld
    · rw [List.mem_singleton.mp hNew]
      exact hWithin
  · rw [Token.pushesAll_append, Token.pushesAll,
      Token.pushesAll, hPushes]
    exact hBuilt.pushes

/- A constant only makes the pool larger. -/
theorem addConstant
    (hBuilt : Built c tokens)
    {value : Number}
    {c' : Chunk}
    {index : UInt8}
    (hAdd : c.addConstant value = .ok (c', index)) :
    Built c' tokens ∧
      c'.constants.size = c.constants.size + 1 ∧
      index.toNat = c.constants.size := by
  unfold Chunk.addConstant at hAdd
  split at hAdd
  · rename_i hRoom
    cases hAdd
    refine ⟨⟨hBuilt.code, ?_, ?_, ?_⟩, ?_, ?_⟩
    · intro token hToken
      apply (hBuilt.indices token hToken).mono
      simp
    · have hPushes := hBuilt.pushes
      simp only [Array.size_push]
      omega
    · rw [Array.size_push]
      exact hRoom
    · simp
    · exact UInt8.toNat_ofNat_of_lt hRoom
  · cases hAdd

/-
  A constant instruction names the entry that was added with
  it, so its push is accounted for.
-/
theorem emitConstant
    (hBuilt : Built c tokens)
    {value : Number}
    {position : Position}
    {c' : Chunk}
    {index : UInt8}
    (hEmit :
      c.emitConstant value position = .ok (c', index)) :
    Built c' (tokens ++ [.constant index]) := by
  unfold Chunk.emitConstant at hEmit
  cases hAdd : c.addConstant value with
  | error full => simp [hAdd] at hEmit
  | ok added =>
      rcases added with ⟨pooled, found⟩
      simp only [hAdd] at hEmit
      cases hEmit
      rcases hBuilt.addConstant hAdd with
        ⟨hPooled, hSize, hIndex⟩
      have hPushes := hBuilt.pushes
      refine ⟨?_, ?_, ?_, hPooled.pool⟩
      · simp [Chunk.emit, write, hPooled.code, Token.bytes]
      · intro token hToken
        rcases List.mem_append.mp hToken with hOld | hNew
        · exact hPooled.indices token hOld
        · rw [List.mem_singleton.mp hNew]
          show index.toNat < pooled.constants.size
          omega
      · simp only [Chunk.emit, write, Token.pushesAll_append,
          Token.pushesAll, Token.pushes, hSize]
        omega

/- A safe edit keeps the invariant, also if it is refused. -/
theorem apply
    (hBuilt : Built c tokens)
    {edit : Edit}
    (hSafe : edit.IsSafe) :
    ∃ more, Built (c.apply edit).chunk (tokens ++ more) := by
  cases edit with
  | byte byte position => exact hSafe.elim
  | op op position =>
      rcases hBuilt.emit hSafe position with ⟨token, hToken⟩
      exact ⟨[token], hToken⟩
  | constant value =>
      cases hAdd : c.addConstant value with
      | error full =>
          refine ⟨[], ?_⟩
          simpa [Chunk.apply, settle, hAdd] using hBuilt
      | ok added =>
          refine ⟨[], ?_⟩
          simpa [Chunk.apply, settle, hAdd] using
            (hBuilt.addConstant hAdd).1
  | push value position =>
      cases hEmit : c.emitConstant value position with
      | error full =>
          refine ⟨[], ?_⟩
          simpa [Chunk.apply, settle, hEmit] using hBuilt
      | ok added =>
          refine ⟨[.constant added.2], ?_⟩
          simpa [Chunk.apply, settle, hEmit] using
            hBuilt.emitConstant hEmit

/- So does every sequence of safe edits. -/
theorem applyAll
    (hBuilt : Built c tokens)
    {edits : List Edit}
    (hSafe : ∀ edit ∈ edits, edit.IsSafe) :
    ∃ more, Built (c.applyAll edits) (tokens ++ more) := by
  induction edits generalizing c tokens with
  | nil => exact ⟨[], by simpa [Chunk.applyAll] using hBuilt⟩
  | cons edit edits ih =>
      rcases hBuilt.apply (hSafe edit List.mem_cons_self) with
        ⟨first, hFirst⟩
      have hRest :
          ∀ other ∈ edits, other.IsSafe := by
        intro other hOther
        exact hSafe other (List.mem_cons_of_mem _ hOther)
      rcases ih hFirst hRest with ⟨more, hMore⟩
      refine ⟨first ++ more, ?_⟩
      rw [← List.append_assoc]
      exact hMore

end Built

/- What safe edits build from nothing is a list of tokens. -/
theorem built_ofEdits
    {edits : List Edit}
    (hSafe : ∀ edit ∈ edits, edit.IsSafe) :
    ∃ tokens, Built (ofEdits edits) tokens :=
  Built.empty.applyAll hSafe

end Chunk

end Abacus

------------------------------------------------------------
-- Interpretation
------------------------------------------------------------

namespace Abacus

namespace Machine

variable {σ : Type}
variable [Sink σ]

/-
  A chunk that safe edits built, refused ones included, can
  fail only for lack of arguments, at the end of its code,
  or at the step limit.
-/
theorem interpret_safe_edits
    {edits : List Edit}
    (hSafe : ∀ edit ∈ edits, edit.IsSafe)
    (m : Machine)
    (sink : σ)
    {fault : Fault}
    (hFault :
      (m.interpret (Chunk.ofEdits edits)
        sink).machine.fault = some fault) :
    fault.cause = .stackUnderflow ∨
      fault.cause =
        .unexpectedEnd (Chunk.ofEdits edits).size ∨
      ∃ limit,
        m.config.stepLimit = some limit ∧
          fault.cause = .stepLimitExceeded limit := by
  rcases Chunk.built_ofEdits hSafe with ⟨tokens, hBuilt⟩
  have hOutcome :=
    interpret_outcome m (Chunk.ofEdits edits) sink
  have hPushes := hBuilt.pushes
  have hPool : _ ≤ Stack.capacity := hBuilt.pool
  have hSize :
      (Chunk.ofEdits edits).size =
        (tokens.flatMap Token.bytes).length := by
    rw [← hBuilt.code]
    exact Array.length_toList.symm
  have hExec :
      ((Program.decode 0
          (tokens.flatMap Token.bytes)).exec
        (Chunk.ofEdits edits) m.config.stepLimit 0 []).fault =
        some fault := by
    rw [← hBuilt.code, ← hFault]
    exact (congrArg Outcome.fault hOutcome).symm
  have hCases :=
    Program.exec_tokens_fault hBuilt.indices 0 0 []
      (by simp only [List.length_nil]; omega) hExec
  rw [hSize]
  simpa using hCases

/-
  The pool is full after 256 constants; the next edits are
  refused, and the negation finds nothing on the stack.
-/
theorem interpret_safe_edits_refused :
    ∃ fault : Fault,
      ((Machine.new {}).interpret
          (Chunk.ofEdits
            (List.replicate 257 (.constant 1) ++
              [.push 1 ⟨1, 1⟩, .op .negate ⟨2, 5⟩]))
          ({} : ByteSink)).machine.fault = some fault ∧
        (fault.cause = .stackUnderflow ∨
          fault.cause =
            .unexpectedEnd
              (Chunk.ofEdits
                (List.replicate 257 (.constant 1) ++
                  [.push 1 ⟨1, 1⟩,
                    .op .negate ⟨2, 5⟩])).size ∨
          ∃ limit,
            (Machine.new {}).config.stepLimit =
                some limit ∧
              fault.cause = .stepLimitExceeded limit) := by
  have hFault :
      ((Machine.new {}).interpret
          (Chunk.ofEdits
            (List.replicate 257 (.constant 1) ++
              [.push 1 ⟨1, 1⟩, .op .negate ⟨2, 5⟩]))
          ({} : ByteSink)).machine.fault =
        some ⟨.stackUnderflow, 0, some ⟨2, 5⟩⟩ := by
    decide +kernel
  exact ⟨_, hFault,
    interpret_safe_edits (by decide +kernel) _ _ hFault⟩

end Machine

end Abacus
