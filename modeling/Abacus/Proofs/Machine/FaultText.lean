import Abacus.Proofs.Listing.Table
import Abacus.Proofs.Machine.Diagnosis

/-
  What the text of a fault tells.

  The text of a fault is a line of words. Those of the cause
  come first and tell its kind and its numbers, then come
  the offset and the position. An offset that stands inside
  a cause is not shown. It can be told nevertheless, because
  every run makes it the offset of the fault.

  Main declarations:
    * `Cause.words` and `Cause.movedTo`
    * `Cause.movedTo_of_words_append`
    * `Fault.words_of_text_eq` and `Fault.eq_of_text_eq`
    * `Machine.isConsistent_of_fault`
    * `Machine.interpret_fault_text_iff`
-/

------------------------------------------------------------
-- Words
------------------------------------------------------------

namespace Abacus

/- No other character is among the digits of a number. -/
theorem Text.not_mem_digits
    {c : Char}
    (hOther : ¬c.isDigit)
    (n : Nat) :
    c ∉ Nat.toDigits 10 n := by
  intro hMem
  exact hOther (isDigit_of_mem_digits hMem)

namespace Cause

/- The words of a cause. -/
def words :
    Cause → List String
| .stackOverflow capacity =>
    [ "stack", "overflow", "(capacity",
      Nat.repr capacity ++ ")" ]
| .stackUnderflow => ["stack", "underflow"]
| .invalidConstant index poolSize =>
    [ "invalid", "constant", "index", Nat.repr index,
      "(pool", "has", Nat.repr poolSize, "entries)" ]
| .invalidOpcode byte _ =>
    ["invalid", "opcode", Nat.repr byte.toNat]
| .missingOperand _ => ["missing", "operand"]
| .unexpectedEnd _ =>
    [ "reached", "end", "of", "code", "without", "a",
      "return" ]
| .stepLimitExceeded limit =>
    [ "step", "limit", "of", Nat.repr limit,
      "instructions", "exceeded" ]

theorem words_ne_nil
    (cause : Cause) :
    cause.words ≠ [] := by
  cases cause <;> exact List.cons_ne_nil _ _

/- The wording of a cause is its words, set apart. -/
theorem message_eq
    (cause : Cause) :
    cause.message = " ".intercalate cause.words := by
  cases cause with
  | stackOverflow capacity =>
      exact String.append_assoc
  | invalidConstant index poolSize =>
      have hOpening :
          "invalid constant index " =
            "invalid" ++ (" " ++ ("constant" ++
              (" " ++ ("index" ++ " ")))) :=
        rfl
      have hMiddle :
          " (pool has " =
            " " ++ ("(pool" ++ (" " ++ ("has" ++ " "))) :=
        rfl
      have hEnd : " entries)" = " " ++ "entries)" := rfl
      change
        "invalid constant index " ++ Nat.repr index ++
            " (pool has " ++ Nat.repr poolSize ++
            " entries)" =
          _
      rw [hOpening, hMiddle, hEnd]
      simp only [words, String.intercalate_cons_cons,
        String.intercalate_singleton, String.append_assoc]
  | stepLimitExceeded limit =>
      have hOpening :
          "step limit of " =
            "step" ++ (" " ++ ("limit" ++
              (" " ++ ("of" ++ " ")))) :=
        rfl
      have hEnd :
          " instructions exceeded" =
            " " ++ ("instructions" ++
              (" " ++ "exceeded")) :=
        rfl
      change
        "step limit of " ++ Nat.repr limit ++
            " instructions exceeded" =
          _
      rw [hOpening, hEnd]
      simp only [words, String.intercalate_cons_cons,
        String.intercalate_singleton, String.append_assoc]
  | _ => rfl

/- No word of a cause holds a space. -/
theorem space_not_mem_words
    (cause : Cause) :
    ∀ word ∈ cause.words, ' ' ∉ word.toList := by
  have hDigits : ∀ n, ' ' ∉ Nat.toDigits 10 n :=
    Text.not_mem_digits (by decide)
  cases cause <;> simp [words, hDigits]

end Cause

namespace Fault

/- The word of a position, if there is one. -/
def positionWords :
    Option Position → List String
| none => []
| some p => ["(" ++ p.text ++ ")"]

/- The words of a fault. -/
def words
    (f : Fault) : List String :=
  f.cause.words ++
    "at" :: "offset" :: Nat.repr f.offset ::
      positionWords f.position

theorem text_eq
    (f : Fault) :
    f.text = " ".intercalate f.words := by
  have hPlace :
      " at offset " ++ Nat.repr f.offset ++
          positionText f.position =
        " " ++
          " ".intercalate
            ("at" :: "offset" :: Nat.repr f.offset ::
              positionWords f.position) := by
    have hOpening :
        " at offset " =
          " " ++ ("at" ++ (" " ++ ("offset" ++ " "))) :=
      rfl
    rw [hOpening]
    cases f.position with
    | none =>
        simp only [positionText, positionWords,
          String.intercalate_cons_cons,
          String.intercalate_singleton, String.append_assoc,
          String.append_empty]
    | some p =>
        have hBracket : " (" = " " ++ "(" := rfl
        simp only [positionText, positionWords, hBracket,
          String.intercalate_cons_cons,
          String.intercalate_singleton, String.append_assoc]
  rw [words,
    String.intercalate_append_of_ne_nil
      f.cause.words_ne_nil (List.cons_ne_nil _ _),
    String.append_assoc, ← hPlace, ← f.cause.message_eq,
    ← String.append_assoc, ← String.append_assoc]
  rfl

/- No word of a fault holds a space. -/
theorem space_not_mem_words
    (f : Fault) :
    ∀ word ∈ f.words, ' ' ∉ word.toList := by
  have hDigits : ∀ n, ' ' ∉ Nat.toDigits 10 n :=
    Text.not_mem_digits (by decide)
  have hCause := f.cause.space_not_mem_words
  have hPosition :
      ∀ word ∈ positionWords f.position,
        ' ' ∉ word.toList := by
    cases f.position <;>
      simp [positionWords, Position.text, hDigits]
  simp only [words, List.forall_mem_append,
    List.forall_mem_cons]
  exact ⟨hCause, by decide, by decide, by simp [hDigits],
    hPosition⟩

/- Faults with the same text have the same words. -/
theorem words_of_text_eq
    {f g : Fault}
    (hText : f.text = g.text) :
    f.words = g.words := by
  have hPieces :
      ∀ f : Fault,
        (Text.pieces ' ' f.text.toList).map String.ofList =
          f.words := by
    intro f
    rw [f.text_eq, String.toList_intercalate]
    change
      (Text.pieces ' '
          (List.intercalate [' ']
            (f.words.map String.toList))).map
          String.ofList =
        f.words
    rw [Text.pieces_intercalate]
    · simp [Function.comp_def]
    · simp [words]
    · intro cs hMem
      rcases List.mem_map.mp hMem with ⟨word, hWord, rfl⟩
      exact f.space_not_mem_words word hWord
  rw [← hPieces f, hText, hPieces g]

end Fault

end Abacus

------------------------------------------------------------
-- Faults With The Same Text
------------------------------------------------------------

namespace Abacus

/- A position is determined by its text. -/
theorem Position.text_inj
    {p q : Position}
    (hText : p.text = q.text) :
    p = q := by
  have hDigits : ∀ n, ':' ∉ (Nat.repr n).toList :=
    Text.not_mem_repr (by decide)
  have hPieces :
      ∀ p : Position,
        Text.pieces ':' p.text.toList =
          [ (Nat.repr p.line).toList,
            (Nat.repr p.col).toList ] := by
    intro p
    rw [← Text.pieces_of_not_mem (hDigits p.col),
      ← Text.pieces_append_cons (hDigits p.line)]
    simp [text]
  have hSame := hPieces p
  rw [hText, hPieces q] at hSame
  injection hSame with hLine hRest
  injection hRest with hCol _
  rw [String.toList_inj] at hLine hCol
  rcases p with ⟨line, col⟩
  rcases q with ⟨line', col'⟩
  cases Text.eq_of_repr_eq hLine
  cases Text.eq_of_repr_eq hCol
  rfl

namespace Cause

/- A cause with another offset inside, if it has one. -/
def movedTo
    (offset : Nat) :
    Cause → Cause
| .invalidOpcode byte _ => .invalidOpcode byte offset
| .missingOperand _ => .missingOperand offset
| .unexpectedEnd _ => .unexpectedEnd offset
| cause => cause

/-
  The words of a cause tell everything but the offset inside
  it, whatever words follow. The first two of them tell the
  kind of the cause.
-/
theorem movedTo_of_words_append
    {cause other : Cause}
    {rest rest' : List String}
    (hWords : cause.words ++ rest = other.words ++ rest')
    (offset : Nat) :
    cause.movedTo offset = other.movedTo offset ∧
      rest = rest' := by
  have hRepr :
      ∀ m n : Nat, Nat.repr m = Nat.repr n ↔ m = n :=
    fun m n => ⟨Text.eq_of_repr_eq, congrArg Nat.repr⟩
  cases cause with
  | stackOverflow capacity =>
      cases other with
      | stackOverflow capacity' =>
          have hSame :
              capacity = capacity' ∧ rest = rest' := by
            simpa [words, hRepr] using hWords
          rw [hSame.1]
          exact ⟨rfl, hSame.2⟩
      | _ => simp [words] at hWords
  | stackUnderflow =>
      cases other with
      | stackUnderflow =>
          exact ⟨rfl, List.append_cancel_left hWords⟩
      | _ => simp [words] at hWords
  | invalidConstant index poolSize =>
      cases other with
      | invalidConstant index' poolSize' =>
          have hSame :
              index = index' ∧
                poolSize = poolSize' ∧ rest = rest' := by
            simpa [words, hRepr] using hWords
          rw [hSame.1, hSame.2.1]
          exact ⟨rfl, hSame.2.2⟩
      | _ => simp [words] at hWords
  | invalidOpcode byte inner =>
      cases other with
      | invalidOpcode byte' inner' =>
          have hSame : byte = byte' ∧ rest = rest' := by
            simpa [words, hRepr, UInt8.toNat_inj]
              using hWords
          rw [hSame.1]
          exact ⟨rfl, hSame.2⟩
      | _ => simp [words] at hWords
  | missingOperand inner =>
      cases other with
      | missingOperand inner' =>
          exact ⟨rfl, List.append_cancel_left hWords⟩
      | _ => simp [words] at hWords
  | unexpectedEnd inner =>
      cases other with
      | unexpectedEnd inner' =>
          exact ⟨rfl, List.append_cancel_left hWords⟩
      | _ => simp [words] at hWords
  | stepLimitExceeded limit =>
      cases other with
      | stepLimitExceeded limit' =>
          have hSame : limit = limit' ∧ rest = rest' := by
            simpa [words, hRepr] using hWords
          rw [hSame.1]
          exact ⟨rfl, hSame.2⟩
      | _ => simp [words] at hWords

end Cause

namespace Fault

/- The offset inside the cause is that of the fault. -/
def IsConsistent
    (f : Fault) : Prop :=
  f.cause.movedTo f.offset = f.cause

instance
    (f : Fault) :
    Decidable f.IsConsistent := by
  unfold IsConsistent
  infer_instance

theorem positionWords_inj
    {p? q? : Option Position}
    (hWords : positionWords p? = positionWords q?) :
    p? = q? := by
  cases p? with
  | none =>
      cases q? with
      | none => rfl
      | some q => cases hWords
  | some p =>
      cases q? with
      | none => cases hWords
      | some q =>
          have hText : p.text = q.text := by
            simpa [positionWords] using hWords
          rw [Position.text_inj hText]

/- A consistent fault is determined by its text. -/
theorem eq_of_text_eq
    {f g : Fault}
    (hLeft : f.IsConsistent)
    (hRight : g.IsConsistent)
    (hText : f.text = g.text) :
    f = g := by
  have hWords := words_of_text_eq hText
  rcases Cause.movedTo_of_words_append hWords f.offset with
    ⟨hCause, hPlace⟩
  simp only [List.cons.injEq, true_and] at hPlace
  have hOffset := Text.eq_of_repr_eq hPlace.1
  have hPosition := positionWords_inj hPlace.2
  rw [hLeft, hOffset, hRight] at hCause
  rcases f with ⟨cause, offset, position⟩
  rcases g with ⟨cause', offset', position'⟩
  cases hCause
  cases hOffset
  cases hPosition
  rfl

/- Another offset inside does not change the text. -/
example :
    ¬IsConsistent ⟨.missingOperand 1, 4, none⟩ ∧
      text ⟨.missingOperand 1, 4, none⟩ =
        text ⟨.missingOperand 4, 4, none⟩ := by
  decide

end Fault

end Abacus

------------------------------------------------------------
-- Runs
------------------------------------------------------------

namespace Abacus

namespace Machine

variable {c : Chunk}
variable {m m' : Machine}

/- A cause that is justified has the right offset inside. -/
theorem movedTo_of_justifies
    {cause : Cause}
    (hJustifies : m.Justifies c cause) :
    cause.movedTo m.offset = cause := by
  cases cause with
  | invalidOpcode byte offset =>
      exact congrArg (Cause.invalidOpcode byte)
        hJustifies.1.symm
  | missingOperand offset =>
      exact congrArg Cause.missingOperand hJustifies.1.symm
  | unexpectedEnd offset =>
      exact congrArg Cause.unexpectedEnd hJustifies.1.symm
  | _ => rfl

/- A step that fails names its own offset. -/
theorem movedTo_of_failed
    (hBound : m.offset ≤ c.size)
    {cause : Cause}
    (hStep : m.step c = .failed cause m') :
    cause.movedTo m.offset = cause := by
  have hCase := step_case c m
  rw [hStep] at hCase
  cases hCase with
  | refused hRefused =>
      rcases exists_limit_of_refused hRefused with
        ⟨limit, _, _, rfl⟩
      rfl
  | unread hAllowed hFetch =>
      exact movedTo_of_justifies
        (justifies_of_fetch_error hBound hFetch)
  | stuck hAllowed hFetch hExecute =>
      exact movedTo_of_justifies
        (justifies_of_execute_error hFetch hExecute)

variable {σ τ : Type}
variable [Sink σ]
variable [Sink τ]

/- So does a run that fails. -/
theorem isConsistent_of_fault
    {t : Tracer σ}
    {fault : Fault}
    (hBound : m.offset ≤ c.size)
    (hFault : (run c t m).fault = some fault) :
    fault.IsConsistent := by
  rcases exists_failed_step hFault with
    ⟨last, hAt, _, hFailed, hOffset, _⟩
  have hMem := List.mem_of_getElem? hAt
  unfold Fault.IsConsistent
  rw [hOffset]
  exact movedTo_of_failed
    (offset_le_of_mem_history hBound hMem) hFailed

/- A runtime error comes with a fault. -/
theorem exists_fault_of_runtimeError
    {sink : σ}
    (hVerdict :
      (m.interpret c sink).verdict = .runtimeError) :
    ∃ fault,
      (m.interpret c sink).machine.fault = some fault ∧
        fault.IsConsistent := by
  rw [verdict_of_fault] at hVerdict
  split at hVerdict
  · rename_i hSome
    rcases Option.isSome_iff_exists.mp hSome with
      ⟨fault, hFault⟩
    exact ⟨fault, hFault,
      isConsistent_of_fault (Nat.zero_le _) hFault⟩
  · cases hVerdict

/-
  The text of the fault of a run identifies the fault, with
  the offset inside its cause, among the faults of all runs
  of all chunks under all settings.
-/
theorem interpret_fault_text_iff
    (c d : Chunk)
    (m n : Machine)
    (sink : σ)
    (other : τ)
    (hLeft : (m.interpret c sink).verdict = .runtimeError)
    (hRight :
      (n.interpret d other).verdict = .runtimeError) :
    ∃ fault fault',
      (m.interpret c sink).machine.fault = some fault ∧
        (n.interpret d other).machine.fault = some fault' ∧
        (fault.text = fault'.text ↔ fault = fault') := by
  rcases exists_fault_of_runtimeError hLeft with
    ⟨fault, hFault, hConsistent⟩
  rcases exists_fault_of_runtimeError hRight with
    ⟨fault', hFault', hConsistent'⟩
  refine ⟨fault, fault', hFault, hFault', ?_, ?_⟩
  · exact Fault.eq_of_text_eq hConsistent hConsistent'
  · exact congrArg Fault.text

/-
  An unknown byte behind different constants, with and
  without a step limit: the texts are equal, and with them
  the faults.
-/
theorem interpret_fault_text_iff_opcode :
    ((Machine.new {}).interpret
          (Chunk.ofEdits
            [.push 2.5 ⟨1, 1⟩, .byte 9 ⟨2, 7⟩])
          ({} : ByteSink)).verdict =
        .runtimeError ∧
      ((Machine.new { stepLimit := some 2 }).interpret
          (Chunk.ofEdits
            [.push 7 ⟨3, 4⟩, .byte 9 ⟨2, 7⟩])
          ({} : ByteSink)).verdict =
        .runtimeError ∧
      ∃ fault,
        ((Machine.new {}).interpret
              (Chunk.ofEdits
                [.push 2.5 ⟨1, 1⟩, .byte 9 ⟨2, 7⟩])
              ({} : ByteSink)).machine.fault =
            some fault ∧
          ((Machine.new { stepLimit := some 2 }).interpret
              (Chunk.ofEdits
                [.push 7 ⟨3, 4⟩, .byte 9 ⟨2, 7⟩])
              ({} : ByteSink)).machine.fault =
            some fault ∧
          fault.text =
            "invalid opcode 9 at offset 2 (2:7)" := by
  have hLeft :
      ((Machine.new {}).interpret
          (Chunk.ofEdits
            [.push 2.5 ⟨1, 1⟩, .byte 9 ⟨2, 7⟩])
          ({} : ByteSink)).verdict =
        .runtimeError := by
    decide +kernel
  have hRight :
      ((Machine.new { stepLimit := some 2 }).interpret
          (Chunk.ofEdits
            [.push 7 ⟨3, 4⟩, .byte 9 ⟨2, 7⟩])
          ({} : ByteSink)).verdict =
        .runtimeError := by
    decide +kernel
  have hTexts :
      ((Machine.new {}).interpret
            (Chunk.ofEdits
              [.push 2.5 ⟨1, 1⟩, .byte 9 ⟨2, 7⟩])
            ({} : ByteSink)).machine.fault.map Fault.text =
          some "invalid opcode 9 at offset 2 (2:7)" ∧
        ((Machine.new { stepLimit := some 2 }).interpret
            (Chunk.ofEdits
              [.push 7 ⟨3, 4⟩, .byte 9 ⟨2, 7⟩])
            ({} : ByteSink)).machine.fault.map Fault.text =
          some "invalid opcode 9 at offset 2 (2:7)" := by
    decide +kernel
  rcases interpret_fault_text_iff _ _ _ _ _ _ hLeft hRight
    with
    ⟨fault, fault', hFault, hFault', hSame⟩
  rw [hFault, hFault', Option.map_some, Option.map_some,
    Option.some_inj, Option.some_inj] at hTexts
  have hEqual : fault = fault' :=
    hSame.mp (hTexts.1.trans hTexts.2.symm)
  exact ⟨hLeft, hRight, fault, hFault, hEqual ▸ hFault',
    hTexts.1⟩

end Machine

end Abacus
