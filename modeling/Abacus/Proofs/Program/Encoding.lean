import Abacus.Proofs.Program.Basic

/-
  Tokens as bytes.

  Bytes start with the encoding of exactly one token, or
  with a tail. Decoding takes tokens off the front, and
  fetching reads the same token at its offset.

  Main declarations:
    * `Token.bytes`
    * `Tail.Starts`
    * `Program.exists_token_or_tail`
    * `Program.decode_token_append`
    * `Chunk.fetch_token`
    * `Chunk.code_of_fetch_ok`
    * `Chunk.fetch_tail`
-/

------------------------------------------------------------
-- Encoding
------------------------------------------------------------

namespace Abacus

namespace Token

/- The bytes of a token. -/
def bytes :
    Token → List UInt8
| .constant index => [Opcode.constant.toByte, index]
| .negate => [Opcode.negate.toByte]
| .binary operator => [(Opcode.binary operator).toByte]
| .ret => [Opcode.ret.toByte]

/- The number of bytes of a token. -/
def width
    (token : Token) : Nat :=
  token.bytes.length

end Token

namespace Tail

/- The bytes with which a tail starts. -/
def Starts :
    Tail → List UInt8 → Prop
| .endOfCode, bytes => bytes = []
| .missingOperand, bytes =>
    bytes = [Opcode.constant.toByte]
| .unknown byte, bytes =>
    Opcode.ofByte? byte = none ∧ bytes.head? = some byte

end Tail

namespace Opcode

/- The byte of an operation that was read from it. -/
theorem toByte_of_ofByte?
    {byte : UInt8}
    {op : Opcode}
    (h : ofByte? byte = some op) :
    op.toByte = byte := by
  unfold ofByte? at h
  apply UInt8.toNat_inj.mp
  split at h <;> cases h
  all_goals
    rename_i hNat
    rw [hNat]
    rfl

end Opcode

------------------------------------------------------------
-- Decoding
------------------------------------------------------------

namespace Program

/- Bytes start with a token or with a tail. -/
theorem exists_token_or_tail
    (bytes : List UInt8) :
    (∃ (token : Token) (rest : List UInt8),
        bytes = token.bytes ++ rest) ∨
      ∃ tail : Tail, tail.Starts bytes := by
  cases bytes with
  | nil => exact .inr ⟨.endOfCode, rfl⟩
  | cons byte rest =>
      cases hOp : Opcode.ofByte? byte with
      | none => exact .inr ⟨.unknown byte, hOp, rfl⟩
      | some op =>
          have hByte := Opcode.toByte_of_ofByte? hOp
          subst hByte
          cases op with
          | constant =>
              cases rest with
              | nil => exact .inr ⟨.missingOperand, rfl⟩
              | cons index rest =>
                  exact .inl ⟨.constant index, rest, rfl⟩
          | negate => exact .inl ⟨.negate, rest, rfl⟩
          | binary operator =>
              exact .inl ⟨.binary operator, rest, rfl⟩
          | ret => exact .inl ⟨.ret, rest, rfl⟩

/- A token in front is decoded first. -/
theorem decode_token_append
    (offset : Nat)
    (token : Token)
    (rest : List UInt8) :
    decode offset (token.bytes ++ rest) =
      (decode (offset + token.width) rest).cons
        offset token := by
  cases token with
  | binary operator =>
      cases operator <;>
        simp [Token.bytes, Token.width, Opcode.toByte,
          decode]
  | _ =>
      simp [Token.bytes, Token.width, Opcode.toByte, decode]

/- A tail in front is all that is decoded. -/
theorem decode_tail
    (offset : Nat)
    {tail : Tail}
    {bytes : List UInt8}
    (hStarts : tail.Starts bytes) :
    decode offset bytes = ⟨[], offset, tail⟩ := by
  cases tail with
  | endOfCode =>
      cases hStarts
      simp [decode]
  | missingOperand =>
      cases hStarts
      simp [Opcode.toByte, decode]
  | unknown byte =>
      rcases hStarts with ⟨hOp, hHead⟩
      cases bytes with
      | nil => cases hHead
      | cons first rest =>
          cases hHead
          unfold decode
          split
          all_goals simp_all [Opcode.ofByte?]

end Program

end Abacus

------------------------------------------------------------
-- Fetching
------------------------------------------------------------

namespace Abacus

namespace Token

/- The instruction that a token stands for. -/
def resolve
    (pool : List Number) :
    Token → Except Cause Instruction
| .constant index =>
    match pool[index.toNat]? with
    | none =>
        .error (.invalidConstant index.toNat pool.length)
    | some value => .ok (.push value)
| .negate => .ok .negate
| .binary operator => .ok (.binary operator)
| .ret => .ok .ret

end Token

namespace Chunk

/- The code behind an offset, byte by byte. -/
theorem getElem?_code_add
    (c : Chunk)
    (offset i : Nat) :
    c.code[offset + i]? =
      (c.code.toList.drop offset)[i]? := by
  simp

/- The code up to the end of a token. -/
theorem take_of_token
    {c : Chunk}
    {offset : Nat}
    {token : Token}
    {rest : List UInt8}
    (hCode :
      c.code.toList.drop offset = token.bytes ++ rest) :
    c.code.toList.take (offset + token.width) =
      c.code.toList.take offset ++ token.bytes := by
  rw [List.take_add, hCode]
  congr 1
  exact List.take_left

/- The token at an offset is the one that is fetched. -/
theorem fetch_token
    {c : Chunk}
    {offset : Nat}
    {token : Token}
    {rest : List UInt8}
    (hCode :
      c.code.toList.drop offset = token.bytes ++ rest) :
    c.fetch offset =
      (token.resolve c.constants.toList,
        offset + token.width) := by
  have hOpcode := c.getElem?_code_add offset 0
  have hOperand := c.getElem?_code_add offset 1
  rw [hCode] at hOpcode hOperand
  cases token with
  | constant index =>
      have hPool :
          c.constant? index.toNat =
            c.constants.toList[index.toNat]? := by
        simp [constant?]
      simp only [Nat.add_zero, Token.bytes, List.cons_append,
        List.getElem?_cons_zero, List.getElem?_cons_succ]
        at hOpcode hOperand
      simp only [fetch, hOpcode, Opcode.ofByte?_toByte,
        fetchConstant, hOperand, hPool, Token.resolve]
      cases c.constants.toList[index.toNat]? <;>
        simp [Token.width, Token.bytes]
  | _ =>
      simp only [Nat.add_zero, Token.bytes, List.cons_append,
        List.getElem?_cons_zero] at hOpcode
      simp [fetch, hOpcode, Token.resolve, Token.width,
        Token.bytes]

/-
  The first byte of an instruction that was fetched is its
  opcode, and the next byte of a constant is its index.
-/
theorem code_of_fetch_ok
    {c : Chunk}
    {offset next : Nat}
    {i : Instruction}
    (hFetch : c.fetch offset = (.ok i, next)) :
    c.code[offset]? = some i.opcode.toByte ∧
      ∀ value,
        i = .push value →
          ∃ index,
            c.code[offset + 1]? = some index ∧
              c.constant? index.toNat = some value := by
  unfold fetch at hFetch
  cases hByte : c.code[offset]? with
  | none => simp [hByte] at hFetch
  | some byte =>
      simp only [hByte] at hFetch
      cases hOp : Opcode.ofByte? byte with
      | none => simp [hOp] at hFetch
      | some op =>
          have hSame := Opcode.toByte_of_ofByte? hOp
          subst hSame
          simp only [hOp] at hFetch
          cases op with
          | constant =>
              simp only [fetchConstant] at hFetch
              cases hIndex : c.code[offset + 1]? with
              | none => simp [hIndex] at hFetch
              | some index =>
                  simp only [hIndex] at hFetch
                  cases hValue : c.constant? index.toNat with
                  | none => simp [hValue] at hFetch
                  | some value =>
                      simp only [hValue] at hFetch
                      cases hFetch
                      refine ⟨rfl, ?_⟩
                      intro other hPush
                      cases hPush
                      exact ⟨index, rfl, hValue⟩
          | _ =>
              cases hFetch
              exact ⟨rfl, by simp⟩

/- A tail at an offset is a fault. -/
theorem fetch_tail
    {c : Chunk}
    {offset : Nat}
    {tail : Tail}
    (hStarts : tail.Starts (c.code.toList.drop offset)) :
    (c.fetch offset).1 = .error (tail.cause offset) := by
  have hOpcode := c.getElem?_code_add offset 0
  have hOperand := c.getElem?_code_add offset 1
  cases tail with
  | endOfCode =>
      simp only [Tail.Starts] at hStarts
      rw [hStarts] at hOpcode
      simp only [Nat.add_zero, List.getElem?_nil] at hOpcode
      simp [fetch, hOpcode, Tail.cause]
  | missingOperand =>
      simp only [Tail.Starts] at hStarts
      rw [hStarts] at hOpcode hOperand
      simp only [Nat.add_zero, List.getElem?_cons_zero,
        List.getElem?_cons_succ, List.getElem?_nil]
        at hOpcode hOperand
      simp [fetch, hOpcode, fetchConstant, hOperand,
        Tail.cause]
  | unknown byte =>
      rcases hStarts with ⟨hOp, hHead⟩
      rw [List.head?_eq_getElem?] at hHead
      rw [hHead, Nat.add_zero] at hOpcode
      simp [fetch, hOpcode, hOp, Tail.cause]

end Chunk

end Abacus
