import Abacus.Listing.Basic
import Abacus.Proofs.Text.Numeral
import Abacus.Text.Pieces

/-
  Listings are tables.

  No cell of a row holds a tab or a line break. So a listing
  that is cut at its line breaks gives back its rows, and a
  row that is cut at its tabs gives back its cells.

  Main declarations:
    * `Text.pieces_intercalate` and `Text.pieces_flatMap`
    * `Text.prefix_of_flatMap_prefix`
    * `Row.cells` and `Row.IsCell`
    * `Row.toList_text` and `Row.pieces_line`
    * `Row.lines_of_join_eq`
    * `Chunk.cells_of_listing_eq`
-/

------------------------------------------------------------
-- Tables
------------------------------------------------------------

namespace Abacus

namespace Text

variable {separator : Char}

/- A text without separators is one piece. -/
theorem pieces_of_not_mem
    {cs : List Char}
    (hFree : separator ∉ cs) :
    pieces separator cs = [cs] := by
  induction cs with
  | nil => rfl
  | cons c cs ih =>
      rw [List.mem_cons, not_or] at hFree
      have hRest := ih hFree.2
      have hOther : c ≠ separator := Ne.symm hFree.1
      simp_all [pieces, cut]

/- The first piece ends at the first separator. -/
theorem pieces_append_cons
    {piece : List Char}
    (hFree : separator ∉ piece)
    (rest : List Char) :
    pieces separator (piece ++ separator :: rest) =
      piece :: pieces separator rest := by
  induction piece with
  | nil => simp [pieces, cut]
  | cons c cs ih =>
      rw [List.mem_cons, not_or] at hFree
      have hRest := ih hFree.2
      have hOther : c ≠ separator := Ne.symm hFree.1
      simp_all [pieces, cut]

/- Pieces that are joined are found again. -/
theorem pieces_intercalate
    {cells : List (List Char)}
    (hSome : cells ≠ [])
    (hFree : ∀ cell ∈ cells, separator ∉ cell) :
    pieces separator (List.intercalate [separator] cells) =
      cells := by
  induction cells with
  | nil => exact absurd rfl hSome
  | cons cell cells ih =>
      have hCell := hFree cell List.mem_cons_self
      cases cells with
      | nil =>
          rw [List.intercalate_singleton]
          exact pieces_of_not_mem hCell
      | cons next cells =>
          rw [List.intercalate_cons_cons, List.append_assoc,
            List.singleton_append, pieces_append_cons hCell,
            ih (by simp)]
          intro other hOther
          exact hFree other (List.mem_cons_of_mem _ hOther)

/- Joining pieces adds nothing but the separator. -/
theorem not_mem_intercalate
    {c : Char}
    {cells : List (List Char)}
    (hOther : c ≠ separator)
    (hFree : ∀ cell ∈ cells, c ∉ cell) :
    c ∉ List.intercalate [separator] cells := by
  induction cells with
  | nil => simp [List.intercalate]
  | cons cell cells ih =>
      have hCell := hFree cell List.mem_cons_self
      have hCells :
          ∀ other ∈ cells, c ∉ other := by
        intro other hMem
        exact hFree other (List.mem_cons_of_mem _ hMem)
      cases cells with
      | nil =>
          rw [List.intercalate_singleton]
          exact hCell
      | cons next cells =>
          rw [List.intercalate_cons_cons]
          simp [hCell, hOther, ih hCells]

/- So are lines, each of which ends with a separator. -/
theorem pieces_flatMap_append
    {lines : List (List Char)}
    (hFree : ∀ line ∈ lines, separator ∉ line)
    (rest : List Char) :
    pieces separator
        ((lines.flatMap fun line => line ++ [separator]) ++
          rest) =
      lines ++ pieces separator rest := by
  induction lines with
  | nil => rfl
  | cons line lines ih =>
      have hLine := hFree line List.mem_cons_self
      have hLines :
          ∀ other ∈ lines, separator ∉ other := by
        intro other hOther
        exact hFree other (List.mem_cons_of_mem _ hOther)
      rw [List.flatMap_cons, List.append_assoc,
        List.append_assoc, List.singleton_append,
        pieces_append_cons hLine, ih hLines,
        List.cons_append]

theorem pieces_flatMap
    {lines : List (List Char)}
    (hFree : ∀ line ∈ lines, separator ∉ line) :
    pieces separator
        (lines.flatMap fun line => line ++ [separator]) =
      lines ++ [[]] := by
  have hLines := pieces_flatMap_append hFree []
  rw [List.append_nil] at hLines
  exact hLines

/-
  A text of lines that starts with others starts with these
  lines: the last of them ends at a separator.
-/
theorem prefix_of_flatMap_prefix
    {lines others : List (List Char)}
    (hFree : ∀ line ∈ lines, separator ∉ line)
    (hFree' : ∀ line ∈ others, separator ∉ line)
    (hPrefix :
      (lines.flatMap fun line => line ++ [separator]) <+:
        others.flatMap fun line => line ++ [separator]) :
    lines <+: others := by
  rcases hPrefix with ⟨rest, hSplit⟩
  have hPieces := congrArg (pieces separator) hSplit
  rw [pieces_flatMap_append hFree, pieces_flatMap hFree']
    at hPieces
  rcases List.eq_nil_or_concat (pieces separator rest) with
    hNone | ⟨front, last, hLast⟩
  · cases hNone
  · rw [hLast, List.concat_eq_append, ← List.append_assoc]
      at hPieces
    exact ⟨front, List.append_inj_left' hPieces rfl⟩

end Text

end Abacus

------------------------------------------------------------
-- Cells
------------------------------------------------------------

namespace Abacus

namespace Row

/- The cells of the line and the column. -/
def Place.cells :
    Place → List String
| .fresh position => [cell position.line, cell position.col]
| .repeated col => ["|", cell col]
| .absent => ["?", "?"]

/- The cells of the instruction and its value. -/
def Body.cells :
    Body → List String
| .plain op => [op.mnemonic]
| .constant value =>
    [Opcode.constant.mnemonic, Number.text value]
| .invalidConstant index =>
    [ Opcode.constant.mnemonic,
      "<invalid constant #" ++ Nat.repr index.toNat ++ ">" ]
| .missingOperand =>
    [Opcode.constant.mnemonic, "<missing operand>"]
| .unknown byte =>
    ["Unknown opcode " ++ Nat.repr byte.toNat]

/- The cells of a row. -/
def cells :
    Row → List String
| .code offset place body =>
    cell offset :: (place.cells ++ body.cells)
| .endOfCode offset => [cell offset, "<end of code>"]

/- The characters of a row, without the line break. -/
def line
    (row : Row) : List Char :=
  List.intercalate ['\t'] (row.cells.map String.toList)

/- A place is two cells, with a tab behind each. -/
theorem Place.text_eq
    (place : Place) :
    ∃ line col,
      place.cells = [line, col] ∧
        place.text = line ++ "\t" ++ col ++ "\t" := by
  cases place with
  | fresh position => exact ⟨_, _, rfl, rfl⟩
  | repeated col => exact ⟨"|", cell col, rfl, rfl⟩
  | absent => exact ⟨"?", "?", rfl, rfl⟩

theorem Place.length_cells
    (place : Place) :
    place.cells.length = 2 := by
  cases place <;> rfl

/- A body is one cell, or two with a tab in between. -/
theorem Body.text_eq
    (body : Body) :
    body.cells = [body.text] ∨
      ∃ operation value,
        body.cells = [operation, value] ∧
          body.text = operation ++ "\t" ++ value := by
  cases body with
  | plain op => exact .inl rfl
  | constant value => exact .inr ⟨_, _, rfl, rfl⟩
  | invalidConstant index =>
      have hSplit :
          "\t<invalid constant #" =
            "\t" ++ "<invalid constant #" :=
        rfl
      refine .inr ⟨_, _, rfl, ?_⟩
      change
        Opcode.constant.mnemonic ++ "\t<invalid constant #" ++
            Nat.repr index.toNat ++
            ">" =
          _
      rw [hSplit]
      simp only [String.append_assoc]
  | missingOperand => exact .inr ⟨_, _, rfl, rfl⟩
  | unknown byte => exact .inl rfl

theorem toList_text
    (row : Row) :
    row.text.toList = row.line ++ ['\n'] := by
  cases row with
  | endOfCode offset =>
      simp [text, line, cells, List.intercalate]
  | code offset place body =>
      rcases place.text_eq with ⟨first, second, hCells, hText⟩
      rcases body.text_eq with
        hOne | ⟨operation, value, hTwo, hBody⟩
      · simp [text, line, cells, hCells, hText, hOne,
          List.intercalate]
      · simp [text, line, cells, hCells, hText, hTwo, hBody,
          List.intercalate]

/- Rows with the same cells have the same text. -/
theorem text_of_cells_eq
    {row other : Row}
    (hCells : row.cells = other.cells) :
    row.text = other.text := by
  apply String.toList_inj.mp
  rw [toList_text, toList_text, line, line, hCells]

/- A numeral is no bar. -/
theorem cell_ne_bar
    (n : Nat) :
    cell n ≠ "|" := by
  intro hSame
  have hBar : '|' ∈ (cell n).toList := by
    rw [hSame]
    simp
  exact Text.not_mem_padded (by decide) 4 n hBar

/- A cell is free of what ends cells and rows. -/
def IsCell
    (s : String) : Prop :=
  '\t' ∉ s.toList ∧ '\n' ∉ s.toList

instance
    (s : String) :
    Decidable (IsCell s) := by
  unfold IsCell
  infer_instance

theorem IsCell.append
    {s t : String}
    (hLeft : IsCell s)
    (hRight : IsCell t) :
    IsCell (s ++ t) := by
  rcases hLeft with ⟨hTab, hBreak⟩
  rcases hRight with ⟨hTab', hBreak'⟩
  constructor
  · simp [hTab, hTab']
  · simp [hBreak, hBreak']

theorem isCell_cell
    (n : Nat) :
    IsCell (cell n) :=
  ⟨Text.not_mem_padded (by decide) 4 n,
    Text.not_mem_padded (by decide) 4 n⟩

theorem isCell_repr
    (n : Nat) :
    IsCell (Nat.repr n) :=
  ⟨Text.not_mem_repr (by decide) n,
    Text.not_mem_repr (by decide) n⟩

theorem isCell_number
    (x : Number) :
    IsCell (Number.text x) :=
  ⟨Number.not_mem_text (by decide) x,
    Number.not_mem_text (by decide) x⟩

theorem isCell_mnemonic
    (op : Opcode) :
    IsCell op.mnemonic := by
  cases op with
  | binary operator => cases operator <;> decide
  | _ => decide

theorem Place.isCell_cells
    (place : Place) :
    ∀ s ∈ place.cells, IsCell s := by
  have hBar : IsCell "|" := by decide
  have hAbsent : IsCell "?" := by decide
  cases place <;>
    simp [Place.cells, isCell_cell, hBar, hAbsent]

theorem Body.isCell_cells
    (body : Body) :
    ∀ s ∈ body.cells, IsCell s := by
  have hName := isCell_mnemonic
  cases body with
  | plain op => simp [Body.cells, hName]
  | constant value =>
      simp [Body.cells, hName, isCell_number]
  | invalidConstant index =>
      have hInvalid :
          IsCell
            ("<invalid constant #" ++
              Nat.repr index.toNat ++ ">") := by
        apply IsCell.append
        · exact IsCell.append (by decide) (isCell_repr _)
        · decide
      simp [Body.cells, hName, hInvalid]
  | missingOperand =>
      have hMissing : IsCell "<missing operand>" := by decide
      simp [Body.cells, hName, hMissing]
  | unknown byte =>
      have hUnknown :
          IsCell
            ("Unknown opcode " ++ Nat.repr byte.toNat) :=
        IsCell.append (by decide) (isCell_repr _)
      simp [Body.cells, hUnknown]

theorem isCell_cells
    (row : Row) :
    ∀ s ∈ row.cells, IsCell s := by
  cases row with
  | endOfCode offset =>
      have hEnd : IsCell "<end of code>" := by decide
      simp [cells, isCell_cell, hEnd]
  | code offset place body =>
      intro s hMem
      rcases List.mem_cons.mp hMem with hOffset | hRest
      · rw [hOffset]
        exact isCell_cell offset
      · rcases List.mem_append.mp hRest with hPlace | hBody
        · exact place.isCell_cells s hPlace
        · exact body.isCell_cells s hBody

/- Cutting a row at its tabs gives its cells. -/
theorem pieces_line
    (row : Row) :
    Text.pieces '\t' row.line =
      row.cells.map String.toList := by
  apply Text.pieces_intercalate
  · cases row <;> simp [cells]
  · intro cs hMem
    rcases List.mem_map.mp hMem with ⟨s, hCell, hSame⟩
    rw [← hSame]
    exact (row.isCell_cells s hCell).1

theorem break_not_mem_line
    (row : Row) :
    '\n' ∉ row.line := by
  apply Text.not_mem_intercalate (by decide)
  intro cs hMem
  rcases List.mem_map.mp hMem with ⟨s, hCell, hSame⟩
  rw [← hSame]
  exact (row.isCell_cells s hCell).2

theorem toList_join_text
    (rows : List Row) :
    (String.join (rows.map Row.text)).toList =
      (rows.map Row.line).flatMap fun line =>
        line ++ ['\n'] := by
  simp [String.toList_join, List.flatMap_map, toList_text]

theorem break_not_mem_lines
    (rows : List Row) :
    ∀ line ∈ rows.map Row.line, '\n' ∉ line := by
  intro line hMem
  rcases List.mem_map.mp hMem with ⟨row, _, hLine⟩
  rw [← hLine]
  exact row.break_not_mem_line

/- Cutting rows at their line breaks gives the rows. -/
theorem lines_of_join_eq
    {rows others : List Row}
    (hSame :
      String.join (rows.map Row.text) =
        String.join (others.map Row.text)) :
    rows.map Row.line = others.map Row.line := by
  have hPieces :=
    congrArg (fun s => Text.pieces '\n' s.toList) hSame
  rw [toList_join_text, toList_join_text,
    Text.pieces_flatMap (break_not_mem_lines _),
    Text.pieces_flatMap (break_not_mem_lines _)] at hPieces
  exact List.append_cancel_right hPieces

/- Rows that are joined to the same text have the same. -/
theorem texts_of_join_eq
    {rows others : List Row}
    (hSame :
      String.join (rows.map Row.text) =
        String.join (others.map Row.text)) :
    rows.map Row.text = others.map Row.text := by
  have hText :
      ∀ row : Row,
        row.text = String.ofList (row.line ++ ['\n']) := by
    intro row
    rw [← toList_text, String.ofList_toList]
  have hTexts :=
    congrArg
      (List.map fun line => String.ofList (line ++ ['\n']))
      (lines_of_join_eq hSame)
  simpa only [List.map_map, Function.comp_def, ← hText]
    using hTexts

end Row

namespace Chunk

theorem listing_eq_append
    (c : Chunk)
    (name : String) :
    c.listing name =
      String.join (heading name) ++
        String.join (c.rows.map Row.text) := by
  rw [listing, listingLines, String.join_append]

/- Chunks with the same listing have the same cells. -/
theorem cells_of_listing_eq
    {c d : Chunk}
    {name : String}
    (hSame : c.listing name = d.listing name) :
    c.rows.map Row.cells = d.rows.map Row.cells := by
  rw [listing_eq_append, listing_eq_append,
    String.append_right_inj] at hSame
  have hCells :=
    congrArg
      (List.map fun line =>
        (Text.pieces '\t' line).map String.ofList)
      (Row.lines_of_join_eq hSame)
  simpa [Row.pieces_line, Function.comp_def] using hCells

end Chunk

end Abacus
