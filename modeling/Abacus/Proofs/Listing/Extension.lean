import Abacus.Proofs.Chunk.Rebuild
import Abacus.Proofs.Listing.Walk
import Abacus.Proofs.Machine.Appending

/-
  Listings grow by appending.

  Two kinds of rows may change when something is added to a
  chunk: a constant without its operand takes the next byte,
  and a constant whose index is not in the pool yet shows a
  later entry of it. All other rows are final. If there are
  only final rows, then the walk over the code ends where it
  does, and goes on from there in every larger chunk, below
  the line of the last row. Otherwise some larger chunk has
  a listing that starts in another way.

  Main declarations:
    * `Row.SaysInvalid` and `Row.isFinal`
    * `Chunk.Complete` and `Chunk.complete_iff`
    * `Chunk.settled_of_isFinal`
    * `Chunk.rowsFrom_of_growsTo`
    * `Chunk.complete_of_prefix`
    * `Chunk.listing_extends`
-/

------------------------------------------------------------
-- Final Rows
------------------------------------------------------------

namespace Abacus

namespace Row

/- The text of a row says that a constant is not there. -/
def SaysInvalid
    (row : Row) : Prop :=
  "<invalid constant".toList <:+: row.text.toList

/- Whether the constant of a row is not there. -/
def isInvalid :
    Row → Bool
| .code _ _ (.invalidConstant _) => true
| _ => false

/- Whether nothing that is added can change a row. -/
def isFinal
    (row : Row) : Bool :=
  !row.lacksOperand && !row.isInvalid

theorem isFinal_iff
    {row : Row} :
    row.isFinal = true ↔
      row.lacksOperand = false ∧ row.isInvalid = false := by
  simp [isFinal]

/- One of the letters of that text is in no other row. -/
theorem not_mem_text_of_valid
    {row : Row}
    (hValid : row.isInvalid = false) :
    'v' ∉ row.text.toList := by
  have hCell : ∀ n, 'v' ∉ (cell n).toList :=
    Text.not_mem_padded (by decide) 4
  have hDigits : ∀ n, 'v' ∉ (Nat.repr n).toList :=
    Text.not_mem_repr (by decide)
  have hNumber : ∀ x, 'v' ∉ (Number.text x).toList :=
    Number.not_mem_text (by decide)
  have hName : ∀ op : Opcode, 'v' ∉ op.mnemonic.toList := by
    intro op
    cases op with
    | binary operator => cases operator <;> decide
    | _ => decide
  cases row with
  | endOfCode offset => simp [text, hCell]
  | code offset place body =>
      have hPlace : 'v' ∉ place.text.toList := by
        cases place <;> simp [Place.text, hCell]
      have hBody : 'v' ∉ body.text.toList := by
        cases body with
        | plain op => exact hName op
        | constant value =>
            change 'v' ∉
              (Opcode.constant.mnemonic ++ "\t" ++
                Number.text value).toList
            simp [hName, hNumber]
        | invalidConstant index => cases hValid
        | missingOperand => decide
        | unknown byte =>
            change 'v' ∉
              ("Unknown opcode " ++
                Nat.repr byte.toNat).toList
            rw [String.toList_append, List.mem_append]
            exact not_or.mpr ⟨by decide, hDigits byte.toNat⟩
      simp [text, hCell, hPlace, hBody]

theorem saysInvalid_iff
    {row : Row} :
    row.SaysInvalid ↔ row.isInvalid = true := by
  constructor
  · intro hSays
    cases hInvalid : row.isInvalid with
    | true => rfl
    | false =>
        have hLetter :
            'v' ∈ "<invalid constant".toList := by
          decide
        exact absurd (hSays.mem hLetter)
          (not_mem_text_of_valid hInvalid)
  · intro hInvalid
    cases row with
    | endOfCode offset => cases hInvalid
    | code offset place body =>
        cases body with
        | invalidConstant index =>
            have hSplit :
                "\t<invalid constant #" =
                  "\t" ++ "<invalid constant" ++ " #" :=
              rfl
            refine
              ⟨(cell offset ++ "\t" ++ place.text ++
                  Opcode.constant.mnemonic ++ "\t").toList,
                (" #" ++ Nat.repr index.toNat ++ ">" ++
                  "\n").toList, ?_⟩
            change
              _ =
                (cell offset ++ "\t" ++ place.text ++
                  (Opcode.constant.mnemonic ++
                    "\t<invalid constant #" ++
                    Nat.repr index.toNat ++ ">") ++
                  "\n").toList
            rw [hSplit]
            simp only [String.toList_append,
              List.append_assoc]
        | _ => cases hInvalid

end Row

namespace Chunk

/-
  The walk over the rows ends where the code does, and no
  row says that a constant is not there.
-/
structure Complete
    (c : Chunk) : Prop where
  ends : c.reached c.rows.length = c.size
  valid : ∀ row ∈ c.rows, ¬row.SaysInvalid

variable {c : Chunk}

/- The walk goes too far only over a missing operand. -/
theorem reached_eq_size_iff
    (c : Chunk) :
    c.reached c.rows.length = c.size ↔
      ∀ row ∈ c.rows, row.lacksOperand = false := by
  constructor
  · intro hEnd row hRow
    cases hLacks : row.lacksOperand with
    | false => rfl
    | true =>
        have hNext :=
          (covers_of_mem_rows hRow).next_of_lacks hLacks
        rcases List.mem_iff_getElem?.mp hRow with ⟨k, hAt⟩
        have hReached := (reachedFrom_getElem? hAt).2
        have hIndex : k < c.rows.length :=
          (List.getElem?_eq_some_iff.mp hAt).1
        -- The row is the last one, since the walk has left
        -- the code behind it.
        have hLast : ¬k + 1 < c.rows.length := by
          intro hMore
          have hWithin :=
            (c.reachedFrom_lt_iff none 0 (k + 1)).mpr hMore
          omega
        have hLength : k + 1 = c.rows.length := by omega
        rw [hLength] at hReached
        unfold reached at hEnd
        omega
  · intro hPresent
    have hEnd := reachedFrom_length (Nat.zero_le c.size) none
    have hLast :
        (c.rowsFrom none 0).getLast?.any
          Row.lacksOperand = false := by
      rw [Option.any_eq_false]
      intro row hRow
      rw [hPresent row (List.mem_of_getLast? hRow)]
    rw [hLast] at hEnd
    exact hEnd

theorem complete_iff
    (c : Chunk) :
    c.Complete ↔ ∀ row ∈ c.rows, row.isFinal = true := by
  constructor
  · rintro ⟨hEnd, hValid⟩ row hRow
    have hPresent := (reached_eq_size_iff c).mp hEnd row hRow
    have hSilent := hValid row hRow
    rw [Row.saysInvalid_iff, Bool.not_eq_true] at hSilent
    exact Row.isFinal_iff.mpr ⟨hPresent, hSilent⟩
  · intro hRows
    constructor
    · apply (reached_eq_size_iff c).mpr
      intro row hRow
      exact (Row.isFinal_iff.mp (hRows row hRow)).1
    · intro row hRow
      rw [Row.saysInvalid_iff, Bool.not_eq_true]
      exact (Row.isFinal_iff.mp (hRows row hRow)).2

end Chunk

end Abacus

------------------------------------------------------------
-- Rows Of A Larger Chunk
------------------------------------------------------------

namespace Abacus

namespace Chunk

variable {c d : Chunk}
variable {previous : Option Nat}
variable {offset : Nat}

/- Nothing is missing where a row is final. -/
theorem settled_of_isFinal
    (hLt : offset < c.size)
    (hFinal : (c.rowAfter previous offset).isFinal = true) :
    c.Settled offset := by
  intro cause hError
  have hByte : c.code[offset]? = some c.code[offset] :=
    Array.getElem?_eq_getElem hLt
  generalize c.code[offset] = byte at hByte
  have hRow :
      c.rowAfter previous offset =
        .code offset (c.placeAfter previous offset)
          (c.bodyAt offset byte) := by
    simp [rowAfter, hByte]
  rw [hRow] at hFinal
  by_cases hConstant : byte = Opcode.constant.toByte
  · subst hConstant
    rw [bodyAt_constant] at hFinal
    rcases c.constantAt_cases offset with
      ⟨index, value, hIndex, hValue, _⟩ |
        ⟨index, _, _, hBody⟩ | ⟨_, hBody⟩
    · simp [fetch, hByte, fetchConstant, hIndex, hValue]
        at hError
    · rw [hBody] at hFinal
      cases hFinal
    · rw [hBody] at hFinal
      cases hFinal
  · simp only [fetch, hByte] at hError
    cases hOp : Opcode.ofByte? byte with
    | none =>
        rw [hOp] at hError
        cases hError
        rfl
    | some op =>
        cases op with
        | constant =>
            exact absurd (Opcode.toByte_of_ofByte? hOp).symm
              hConstant
        | _ =>
            rw [hOp] at hError
            cases hError

/- The line above what comes behind some rows. -/
def lineBelow
    (c : Chunk)
    (previous : Option Nat)
    (rows : List Row) : Option Nat :=
  rows.getLast?.elim previous fun row => c.line? row.offset

theorem lineBelow_cons
    (c : Chunk)
    (previous : Option Nat)
    (row : Row)
    (rows : List Row) :
    c.lineBelow previous (row :: rows) =
      c.lineBelow (c.line? row.offset) rows := by
  unfold lineBelow
  rw [List.getLast?_cons]
  cases rows.getLast? <;> rfl

/-
  Final rows are also the first rows of a larger chunk, and
  the walk goes on at the end of the smaller one. The
  induction is on the code that is left in that.
-/
theorem rowsFrom_of_growsTo
    (hPlaced : c.Placed)
    (hGrows : c.GrowsTo d)
    (hLe : offset ≤ c.size)
    (hFinal :
      ∀ row ∈ c.rowsFrom previous offset,
        row.isFinal = true) :
    d.rowsFrom previous offset =
      c.rowsFrom previous offset ++
        d.rowsFrom
          (c.lineBelow previous
            (c.rowsFrom previous offset))
          c.size := by
  induction hRest : c.size - offset using Nat.strongRecOn
    generalizing previous offset with
  | ind rest ih =>
      by_cases hLt : offset < c.size
      · have hLt' : offset < d.size :=
          Nat.lt_of_lt_of_le hLt hGrows.size_le
        rw [rowsFrom_of_lt hLt] at hFinal ⊢
        have hHere := hFinal _ List.mem_cons_self
        have hRow :=
          (settled_of_isFinal hLt hHere).rowAfter_eq hPlaced
            hGrows previous
        have hLine : d.line? offset = c.line? offset := by
          rw [line?, line?, hPlaced.position?_eq hGrows hLt]
        have hNext :=
          (covers_rowAfter hLt previous).next_le
            (Row.isFinal_iff.mp hHere).1
        have hForward := c.lt_next_rowAfter previous offset
        have hBehind :=
          ih _ (by omega) hNext
            (fun row hMem =>
              hFinal row (List.mem_cons_of_mem _ hMem))
            rfl
        rw [rowsFrom_of_lt hLt', hRow, hLine, hBehind,
          lineBelow_cons, offset_rowAfter, List.cons_append]
      · have hEnd : offset = c.size := by omega
        rw [rowsFrom_of_le (Nat.le_of_eq hEnd.symm), hEnd]
        rfl

end Chunk

end Abacus

------------------------------------------------------------
-- Listings That Start Alike
------------------------------------------------------------

namespace Abacus

namespace Row

/-
  The cells of a row tell where it is and whether something
  is missing from it.
-/
theorem of_cells_eq
    {row other : Row}
    (hCells : row.cells = other.cells) :
    row.offset = other.offset ∧
      row.lacksOperand = other.lacksOperand ∧
      row.isInvalid = other.isInvalid := by
  have hLengths := congrArg List.length hCells
  cases row with
  | endOfCode offset =>
      cases other with
      | endOfCode offset' =>
          have hOffset := (List.cons.inj hCells).1
          exact ⟨Text.padded_inj hOffset, rfl, rfl⟩
      | code offset' place' body' =>
          simp [cells, Place.length_cells] at hLengths
          omega
  | code offset place body =>
      cases other with
      | endOfCode offset' =>
          simp [cells, Place.length_cells] at hLengths
          omega
      | code offset' place' body' =>
          rcases List.cons.inj hCells with ⟨hOffset, hRest⟩
          have hPlaces :
              place.cells.length = place'.cells.length := by
            rw [Place.length_cells, Place.length_cells]
          have hBody := (List.append_inj hRest hPlaces).2
          have hAlike := Body.alike_iff.mpr hBody
          refine ⟨Text.padded_inj hOffset, ?_, ?_⟩
          · cases hAlike <;> rfl
          · cases hAlike <;> rfl

/- Rows at the start of others are the first of these. -/
theorem exists_of_join_prefix
    {rows others : List Row}
    (hPrefix :
      (String.join (rows.map Row.text)).toList <+:
        (String.join (others.map Row.text)).toList)
    {k : Nat}
    {row : Row}
    (hRow : rows[k]? = some row) :
    ∃ other,
      others[k]? = some other ∧ row.cells = other.cells := by
  rw [toList_join_text, toList_join_text] at hPrefix
  have hLines :=
    Text.prefix_of_flatMap_prefix (break_not_mem_lines rows)
      (break_not_mem_lines others) hPrefix
  have hLine : (rows.map Row.line)[k]? = some row.line := by
    rw [List.getElem?_map, hRow]
    rfl
  rcases List.getElem?_eq_some_iff.mp hLine with
    ⟨hIndex, hAt⟩
  have hSame := List.prefix_iff_getElem?.mp hLines k hIndex
  rw [hAt, List.getElem?_map, Option.map_eq_some_iff]
    at hSame
  rcases hSame with ⟨other, hOther, hSame⟩
  have hPieces := congrArg (Text.pieces '\t') hSame.symm
  rw [pieces_line, pieces_line] at hPieces
  refine ⟨other, hOther, ?_⟩
  apply (List.map_inj_right _).mp hPieces
  intro left right hChars
  exact String.toList_inj.mp hChars

end Row

namespace Chunk

/- Constants for every pool, and one more byte. -/
def filling : List Edit :=
  List.replicate poolCapacity (.constant 0) ++ [.byte 0 {}]

variable {c d : Chunk}

theorem size_filling
    (c : Chunk) :
    (c.applyAll filling).size = c.size + 1 := by
  have hWritten :
      ∀ (n : Nat) (c : Chunk),
        c.written
            (List.replicate n (.constant 0) ++
              [.byte 0 {}]) =
          [(0, {})] := by
    intro n
    induction n with
    | zero =>
        intro c
        rfl
    | succ n ih =>
        intro c
        rw [List.replicate_succ, List.cons_append, written,
          ih]
        rfl
  rw [applyAll_eq_extended, filling, hWritten]
  simp [extended, size]

theorem full_of_constants
    (c : Chunk)
    (n : Nat)
    (rest : List Edit)
    (hEnough : poolCapacity ≤ c.constants.size + n) :
    poolCapacity ≤
      (c.applyAll
        (List.replicate n (.constant 0) ++
          rest)).constants.size := by
  induction n generalizing c with
  | zero =>
      have hGrows := growsTo_applyAll c rest
      have hPool := hGrows.constants.length_le
      simp only [Array.length_toList] at hPool
      exact Nat.le_trans hEnough hPool
  | succ n ih =>
      apply ih (c.apply (.constant 0)).chunk
      by_cases hRoom : c.constants.size < poolCapacity
      · rw [(apply_of_room rfl hRoom).2, Array.size_push]
        omega
      · rw [(apply_of_full rfl hRoom).2]
        omega

/- A full pool has an entry for every index. -/
theorem room_of_isInvalid
    {previous : Option Nat}
    {offset : Nat}
    (hInvalid :
      (c.rowAfter previous offset).isInvalid = true) :
    c.constants.size < poolCapacity := by
  unfold rowAfter at hInvalid
  split at hInvalid
  · cases hInvalid
  · rename_i byte hByte
    have hTold := c.byte_bodyAt offset byte
    cases hBody : c.bodyAt offset byte with
    | invalidConstant index =>
        rw [hBody] at hTold
        subst hTold
        rcases c.constantAt_cases offset with
          ⟨_, _, _, _, hShown⟩ | ⟨found, _, hNone, hShown⟩ |
            ⟨_, hShown⟩
        · cases hBody.symm.trans hShown
        · have hBeyond : c.constants.size ≤ found.toNat :=
            Array.getElem?_eq_none_iff.mp hNone
          exact Nat.lt_of_le_of_lt hBeyond found.toNat_lt
        · cases hBody.symm.trans hShown
    | _ =>
        rw [hBody] at hInvalid
        cases hInvalid

/-
  If something were missing from a row, the listing would
  start in another way once the pool is full and there is
  one more byte.
-/
theorem complete_of_prefix
    {name : String}
    (hPrefix :
      (c.listing name).toList <+:
        ((c.applyAll filling).listing name).toList) :
    c.Complete := by
  have hSize := c.size_filling
  have hFull :
      poolCapacity ≤
        (c.applyAll filling).constants.size :=
    c.full_of_constants poolCapacity _ (Nat.le_add_left _ _)
  rw [listing_eq_append, listing_eq_append,
    String.toList_append, String.toList_append,
    List.prefix_append_right_inj] at hPrefix
  apply (complete_iff c).mpr
  intro row hRow
  rcases List.mem_iff_getElem?.mp hRow with ⟨k, hAt⟩
  rcases Row.exists_of_join_prefix hPrefix hAt with
    ⟨other, hOther, hCells⟩
  rcases Row.of_cells_eq hCells with
    ⟨hOffset, hLacks, hInvalid⟩
  have hMem := List.mem_of_getElem? hOther
  apply Row.isFinal_iff.mpr
  constructor
  · -- A missing operand would be missing at both ends.
    rcases (covers_of_mem_rows hRow).exists_byte with
      ⟨byte, _, _, hEnd⟩
    rcases (covers_of_mem_rows hMem).exists_byte with
      ⟨byte', _, _, hEnd'⟩
    rw [Bool.eq_false_iff]
    intro hMissing
    have hHere := (hEnd.mp hMissing).2
    have hThere := (hEnd'.mp (hLacks.symm.trans hMissing)).2
    omega
  · rw [Bool.eq_false_iff]
    intro hShown
    rcases exists_rowAfter_of_mem_rowsFrom hMem with
      ⟨previous, hSame⟩
    rw [hInvalid, hSame] at hShown
    have hRoom := room_of_isInvalid hShown
    omega

end Chunk

end Abacus

------------------------------------------------------------
-- Growing Listings
------------------------------------------------------------

namespace Abacus

namespace Chunk

variable {c d : Chunk}

/- The rows of a larger chunk go on where the code ended. -/
theorem rows_applyAll
    (hPlaced : c.Placed)
    (hComplete : c.Complete)
    (edits : List Edit) :
    (c.applyAll edits).rows =
      c.rows ++
        (c.applyAll edits).rowsFrom
          (c.lineBelow none c.rows) c.size :=
  rowsFrom_of_growsTo hPlaced (growsTo_applyAll c edits)
    (Nat.zero_le _) ((complete_iff c).mp hComplete)

theorem listing_applyAll
    (hPlaced : c.Placed)
    (hComplete : c.Complete)
    (edits : List Edit)
    (name : String) :
    (c.applyAll edits).listing name =
      c.listing name ++
        String.join
          (((c.applyAll edits).rowsFrom
            (c.lineBelow none c.rows) c.size).map
              Row.text) := by
  rw [listing_eq_append, listing_eq_append,
    rows_applyAll hPlaced hComplete, List.map_append,
    String.join_append, String.append_assoc]

/- The first row behind others is compared with the last. -/
theorem bar_behind_iff
    (hPlaced : d.Placed)
    {row : Row}
    (hFirst :
      (d.rowsFrom (c.lineBelow none c.rows) c.size).head? =
        some row) :
    row.offset = c.size ∧
      (row.columns[1]? = some ['|'] ↔
        ∃ last,
          c.rows.getLast? = some last ∧
            c.line? last.offset = d.line? row.offset) := by
  rw [List.head?_eq_getElem?] at hFirst
  have hLt := lt_size_of_getElem?_rowsFrom hFirst
  have hRow := getElem?_zero_rowsFrom hFirst
  have hOffset : row.offset = c.size := by
    rw [hRow, offset_rowAfter]
  refine ⟨hOffset, ?_⟩
  rw [hOffset, hRow, bar_rowAfter_iff hPlaced hLt, lineBelow]
  cases c.rows.getLast? with
  | some last => simp
  | none =>
      rcases hPlaced.exists_at hLt with
        ⟨byte, position, hByte, hPosition⟩
      simp [line?_of_position? hPosition]

/-
  A listing is the start of the listings of all larger
  chunks exactly if its rows end where the code does and
  none of them says that a constant is not there. Then the
  rest of such a listing are the rows behind the code of the
  smaller chunk, and the first of them has a bar if it is of
  the line of the last row of that.
-/
theorem listing_extends
    (hReachable : c.Reachable) :
    (c.Complete ↔
        ∀ (edits : List Edit) (name : String),
          (c.listing name).toList <+:
            ((c.applyAll edits).listing name).toList) ∧
      (c.Complete →
        ∀ (edits : List Edit) (name : String),
          let d := c.applyAll edits
          let more :=
            d.rowsFrom (c.lineBelow none c.rows) c.size
          d.rows = c.rows ++ more ∧
            d.listing name =
              c.listing name ++
                String.join (more.map Row.text) ∧
            ∀ row,
              more.head? = some row →
                row.offset = c.size ∧
                  (row.columns[1]? = some ['|'] ↔
                    ∃ last,
                      c.rows.getLast? = some last ∧
                        c.line? last.offset =
                          d.line? row.offset)) := by
  have hPlaced := hReachable.placed
  refine ⟨⟨?_, ?_⟩, ?_⟩
  · intro hComplete edits name
    rw [listing_applyAll hPlaced hComplete,
      String.toList_append]
    exact List.prefix_append _ _
  · intro hAlways
    exact complete_of_prefix (hAlways filling "")
  · intro hComplete edits name d more
    refine ⟨rows_applyAll hPlaced hComplete edits,
      listing_applyAll hPlaced hComplete edits name, ?_⟩
    intro row hFirst
    exact bar_behind_iff (hPlaced.applyAll edits) hFirst

/-
  The first chunk is of whole instructions, and the listing
  of every larger chunk starts with its own. The second one
  lacks an operand, and the third has an index that is not
  in its pool.
-/
theorem listing_extends_operand :
    ∃ c lacking invalid : Chunk,
      c.Reachable ∧
        c.size = 3 ∧
        c.Complete ∧
        (c.applyAll [.op .ret ⟨1, 5⟩]).rows =
          c.rows ++
            [.code 3 (.repeated 5) (.plain .ret)] ∧
        lacking.Reachable ∧
        lacking.code = #[6, 0] ∧
        ¬(∀ (edits : List Edit) (name : String),
            (lacking.listing name).toList <+:
              ((lacking.applyAll edits).listing
                name).toList) ∧
        invalid.Reachable ∧
        invalid.code = #[0, 1, 6] ∧
        ¬∀ (edits : List Edit) (name : String),
            (invalid.listing name).toList <+:
              ((invalid.applyAll edits).listing
                name).toList := by
  have hComplete :
      (ofEdits
        [.push 1.5 ⟨1, 1⟩,
          .op .negate ⟨1, 2⟩]).Complete := by
    rw [complete_iff]
    decide +kernel
  refine
    ⟨_, ofEdits [.byte 6 ⟨1, 1⟩, .byte 0 ⟨1, 2⟩],
      ofEdits
        [.constant 4, .byte 0 ⟨1, 1⟩, .byte 1 ⟨1, 1⟩,
          .byte 6 ⟨1, 3⟩],
      ⟨_, rfl⟩, rfl, hComplete, ?_, ⟨_, rfl⟩, rfl, ?_,
      ⟨_, rfl⟩, rfl, ?_⟩
  · have hRows :=
      ((listing_extends ⟨_, rfl⟩).2 hComplete
        [.op .ret ⟨1, 5⟩] "").1
    rw [hRows]
    decide +kernel
  · rw [← (listing_extends ⟨_, rfl⟩).1, complete_iff]
    decide +kernel
  · rw [← (listing_extends ⟨_, rfl⟩).1, complete_iff]
    decide +kernel

end Chunk

end Abacus
