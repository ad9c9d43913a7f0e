import Mathlib.Algebra.GroupWithZero.Nat
import Mathlib.Data.List.Forall2
import Mathlib.Order.Bounds.Basic
import Recurrence.Command.Table
import Recurrence.Proofs.ControlSequences

/-!
# How tables are laid out

A table gives every row a line and every column a stretch of it, at the same place in all lines.
`Table.ShowsRow` says what that means of a single line: the cell of each column stands, unchanged,
behind the widths of the columns before it. The widths are known before the first line is written,
so a line is taken by itself, column by column from its end (`Table.exists_line`); that they are the
widths of the widest cells (`Table.isGreatest_width`) is used in one place only, to know that no
cell is too wide for its column.

A color goes around a field that has its width already, so it moves nothing: without the control
sequences a colored table is the plain one (`Table.plain_render`). `Table.render_aligns` puts both
together.
-/

namespace Recurrence.Command

/-! ## Lines of a text -/

/-- Lines that each have an end are what a text splits into, and nothing is left behind. -/
theorem splitOn_endedLines {lines : List (List Char)} (h : ∀ line ∈ lines, '\n' ∉ line) :
    (lines.flatMap (· ++ ['\n'])).splitOn '\n' = lines ++ [[]] := by
  induction lines with
  | nil => rfl
  | cons line lines ih =>
      obtain ⟨hline, hlines⟩ := List.forall_mem_cons.1 h
      rw [List.flatMap_cons, List.append_assoc, List.singleton_append,
        List.splitOn_append_cons_self_of_not_mem hline, ih hlines, List.cons_append]

/-- Values that each give a line with an end give lines that each have an end. -/
theorem exists_endedLines {α : Type} {values : List α} {text : α → List Char}
    {p : α → List Char → Prop}
    (h : ∀ a ∈ values, ∃ line, text a = line ++ ['\n'] ∧ '\n' ∉ line ∧ p a line) :
    ∃ lines : List (List Char), values.flatMap text = lines.flatMap (· ++ ['\n']) ∧
      (∀ line ∈ lines, '\n' ∉ line) ∧ List.Forall₂ p values lines := by
  induction values with
  | nil => exact ⟨[], rfl, nofun, .nil⟩
  | cons a values ih =>
      obtain ⟨hfirst, hrest⟩ := List.forall_mem_cons.1 h
      obtain ⟨line, hline, hend, hp⟩ := hfirst
      obtain ⟨lines, hlines, hends, hps⟩ := ih hrest
      refine ⟨line :: lines, ?_, List.forall_mem_cons.2 ⟨hend, hends⟩, .cons hp hps⟩
      rw [List.flatMap_cons, List.flatMap_cons, hline, hlines]

namespace Table

open Paint

variable {α : Type} {column : Column α} {columns : List (Column α)} {width : Nat}
  {widths : List Nat} {row : α} {rows : List α}

/-! ## Widths -/

theorem width_cons (column : Column α) (row : α) (rows : List α) :
    Table.width column (row :: rows) =
      max (column.cell row).length (Table.width column rows) := by
  unfold Table.width
  rw [List.foldl_cons, max_comm]
  exact List.foldl_hom (max (column.cell row).length) fun _ _ => max_assoc _ _ _

theorem length_cell_le_width (h : row ∈ rows) :
    (column.cell row).length ≤ Table.width column rows := by
  induction rows with
  | nil => cases h
  | cons first rows ih =>
      rw [width_cons]
      rcases List.mem_cons.1 h with rfl | h
      · exact le_max_left _ _
      · exact le_trans (ih h) (le_max_right _ _)

theorem exists_widest (column : Column α) (h : rows ≠ []) :
    ∃ row ∈ rows, (column.cell row).length = Table.width column rows := by
  induction rows with
  | nil => exact absurd rfl h
  | cons first rows ih =>
      rw [width_cons]
      rcases le_total (Table.width column rows) (column.cell first).length with hle | hle
      · exact ⟨first, List.mem_cons_self, (max_eq_left hle).symm⟩
      · rcases rows with _ | ⟨second, rows⟩
        · exact ⟨first, List.mem_cons_self, (max_eq_left (Nat.zero_le _)).symm⟩
        · obtain ⟨row, hrow, hwidest⟩ := ih (List.cons_ne_nil _ _)
          exact ⟨row, List.mem_cons_of_mem _ hrow, hwidest.trans (max_eq_right hle).symm⟩

/-- A column is as wide as its widest cell. -/
theorem isGreatest_width (column : Column α) (h : rows ≠ []) :
    IsGreatest {n | ∃ row ∈ rows, (column.cell row).length = n} (Table.width column rows) := by
  refine ⟨exists_widest column h, ?_⟩
  rintro _ ⟨row, hrow, rfl⟩
  exact length_cell_le_width hrow

/-! ## Lines -/

/-- A field is a cell as it is, brought to a width by blanks on the side at which it does not
stand. -/
def IsField (alignment : Alignment) (width : Nat) (cell field : List Char) : Prop :=
  field.length = width ∧ ∃ count, field =
    match alignment with
    | .left => cell ++ List.replicate count ' '
    | .right => List.replicate count ' ' ++ cell

/-- Where a column begins in a line: behind the columns before it, each with two blanks. -/
def offset (widths : List Nat) (place : Nat) : Nat :=
  ((widths.take place).map (· + 2)).sum

/-- A column of a row is written as a field, which two blanks or the end of the line follow. Only
the last column is left without blanks, if its cells stand at the left. -/
structure Writes (column : Column α) (width : Nat) (isLast : Prop) (row : α)
    (field behind : List Char) : Prop where
  padded : ¬ (isLast ∧ column.alignment = .left) →
    IsField column.alignment width (column.cell row) field
  bare : isLast ∧ column.alignment = .left → field = column.cell row
  separated : ¬ isLast → [' ', ' '] <+: behind
  ended : isLast → behind = []

/-- A line shows a row: each column of the row is written where the column begins. -/
def ShowsRow (columns : List (Column α)) (widths : List Nat) (row : α) (line : List Char) : Prop :=
  ∀ place column width, columns[place]? = some column → widths[place]? = some width →
    ∃ before field behind, line = before ++ field ++ behind ∧
      before.length = offset widths place ∧
      Writes column width (place + 1 = columns.length) row field behind

theorem isField_pad {alignment : Alignment} {cell : List Char} (h : cell.length ≤ width) :
    IsField alignment width cell (pad alignment width cell) := by
  cases alignment with
  | left => exact ⟨by simp [pad, h], _, rfl⟩
  | right => exact ⟨by simp [pad, h], _, rfl⟩

theorem lineEnd_notMem_pad {alignment : Alignment} {cell : List Char} (h : '\n' ∉ cell) :
    '\n' ∉ pad alignment width cell := by
  cases alignment with
  | left => simp [pad, h]
  | right => simp [pad, h]

theorem paintCell_false (column : Column α) (row : α) (cell : List Char) :
    paintCell false column row cell = cell := by
  unfold paintCell
  cases column.paint row with
  | none => rfl
  | some paint => rfl

/-- The field of the last column. -/
def lastField (column : Column α) (width : Nat) (row : α) : List Char :=
  match column.alignment with
  | .left => column.cell row
  | .right => pad .right width (column.cell row)

theorem line_singleton (painted : Bool) (column : Column α) (width : Nat) (row : α) :
    line painted row [(column, width)] =
      paintCell painted column row (lastField column width row) ++ ['\n'] :=
  rfl

theorem line_cons_cons (painted : Bool) (column : Column α) (width : Nat) (row : α)
    (next : Column α × Nat) (sized : List (Column α × Nat)) :
    line painted row ((column, width) :: next :: sized) =
      paintCell painted column row (pad column.alignment width (column.cell row)) ++
        ' ' :: ' ' :: line painted row (next :: sized) :=
  rfl

theorem showsRow_singleton (h : (column.cell row).length ≤ width) :
    ShowsRow [column] [width] row (lastField column width row) := by
  intro place column' width' hcolumn hwidth
  cases place with
  | succ place => cases hcolumn
  | zero =>
      cases hcolumn
      cases hwidth
      refine ⟨[], lastField column width row, [], (List.append_nil _).symm, rfl,
        fun hpadded => ?_, fun hbare => ?_, fun hlast => absurd rfl hlast, fun _ => rfl⟩
      · have hright : column.alignment = .right := by
          cases halignment : column.alignment with
          | left => exact absurd ⟨rfl, halignment⟩ hpadded
          | right => rfl
        rw [lastField, hright]
        exact isField_pad h
      · rw [lastField, hbare.2]

theorem ShowsRow.cons {text : List Char} (hne : columns ≠ [])
    (h : (column.cell row).length ≤ width) (hrest : ShowsRow columns widths row text) :
    ShowsRow (column :: columns) (width :: widths) row
      (pad column.alignment width (column.cell row) ++ ' ' :: ' ' :: text) := by
  have hfield : IsField column.alignment width (column.cell row) _ := isField_pad h
  intro place column' width' hcolumn hwidth
  cases place with
  | zero =>
      cases hcolumn
      cases hwidth
      have hnotLast : ¬ (0 + 1 = (column :: columns).length) := by
        have := List.length_pos_iff.2 hne
        simp only [List.length_cons]
        omega
      exact ⟨[], _, ' ' :: ' ' :: text, rfl, rfl, fun _ => hfield,
        fun hlast => absurd hlast.1 hnotLast, fun _ => ⟨text, rfl⟩,
        fun hlast => absurd hlast hnotLast⟩
  | succ place =>
      obtain ⟨before, field, behind, rfl, hbefore, hwrites⟩ :=
        hrest place column' width' hcolumn hwidth
      refine ⟨pad column.alignment width (column.cell row) ++ ' ' :: ' ' :: before, field, behind,
        by simp, ?_, ?_⟩
      · simp only [List.length_append, List.length_cons, hfield.1, hbefore, offset,
          List.take_succ_cons, List.map_cons, List.sum_cons]
        omega
      · simpa using hwrites

/-- The line of a row, if no cell is too wide for its column. -/
theorem exists_line
    (hfits : List.Forall₂ (fun column width => (column.cell row).length ≤ width) columns widths)
    (hne : columns ≠ []) (hends : ∀ column ∈ columns, '\n' ∉ column.cell row) :
    ∃ text, line false row (columns.zip widths) = text ++ ['\n'] ∧ '\n' ∉ text ∧
      ShowsRow columns widths row text := by
  induction hfits with
  | nil => exact absurd rfl hne
  | @cons column width columns widths hfit hrest ih =>
      obtain ⟨hend, hends⟩ := List.forall_mem_cons.1 hends
      cases hrest with
      | nil =>
          refine ⟨lastField column width row, ?_, ?_, showsRow_singleton hfit⟩
          · rw [List.zip_cons_cons, List.zip_nil_left, line_singleton, paintCell_false]
          · unfold lastField
            cases column.alignment with
            | left => exact hend
            | right => exact lineEnd_notMem_pad hend
      | cons hfit' hrest' =>
          obtain ⟨text, hline, htext, hshows⟩ := ih (List.cons_ne_nil _ _) hends
          refine ⟨_, ?_, ?_, hshows.cons (List.cons_ne_nil _ _) hfit⟩
          · rw [List.zip_cons_cons] at hline
            rw [List.zip_cons_cons, List.zip_cons_cons, line_cons_cons, paintCell_false, hline,
              List.append_assoc, List.cons_append, List.cons_append]
          · simp [lineEnd_notMem_pad hend, htext]

/-! ## Colored tables -/

theorem stays_pad {cell : List Char} (h : Unpainted cell) (alignment : Alignment) (width : Nat) :
    Stays (pad alignment width cell) := by
  intro rest hrest
  cases alignment with
  | left =>
      have hblanks : Separates (List.replicate (width - cell.length) ' ' ++ rest) := by
        cases width - cell.length with
        | zero => exact hrest
        | succ count => exact separates_cons (by decide) _
      simp only [pad, List.append_assoc, plain_append h hblanks, plain_replicate]
  | right => simp only [pad, List.append_assoc, plain_append h hrest, plain_replicate]

theorem stays_lastField {column : Column α} (h : Unpainted (column.cell row)) (width : Nat) :
    Stays (lastField column width row) := by
  unfold lastField
  cases column.alignment with
  | left => exact h.stays
  | right => exact stays_pad h .right width

theorem plain_paintCell (column : Column α) (row : α) {field rest : List Char} (h : Stays field)
    (hrest : Separates rest) :
    plain (paintCell true column row field ++ rest) = field ++ plain rest := by
  unfold paintCell
  cases column.paint row with
  | none => exact h rest hrest
  | some paint => exact plain_apply paint h rest

theorem plain_line {sized : List (Column α × Nat)}
    (h : ∀ column ∈ sized, Unpainted (column.1.cell row)) (rest : List Char) :
    plain (line true row sized ++ rest) = line false row sized ++ plain rest := by
  induction sized with
  | nil => rfl
  | cons first sized ih =>
      obtain ⟨column, width⟩ := first
      obtain ⟨hcell, hcells⟩ := List.forall_mem_cons.1 h
      cases sized with
      | nil =>
          have hfield : Stays (lastField column width row) := stays_lastField hcell width
          simp only [line_singleton, paintCell_false, List.append_assoc, List.singleton_append]
          rw [plain_paintCell column row hfield (separates_cons (by decide) rest),
            plain_cons_of_ne (by decide)]
      | cons next sized =>
          have hfield := stays_pad hcell column.alignment width
          simp only [line_cons_cons, paintCell_false, List.append_assoc, List.cons_append]
          rw [plain_paintCell column row hfield (separates_cons (by decide) _),
            plain_cons_of_ne (by decide), plain_cons_of_ne (by decide), ih hcells]

/-- Coloring a table adds control sequences only. -/
theorem plain_render_append
    (h : ∀ row ∈ rows, ∀ column ∈ columns, Unpainted (column.cell row)) (rest : List Char) :
    plain (render true columns rows ++ rest) = render false columns rows ++ plain rest := by
  unfold render
  dsimp only
  generalize hsized : (columns.map fun column => (column, Table.width column rows)) = sized
  have hcells : ∀ row ∈ rows, ∀ column ∈ sized, Unpainted (column.1.cell row) := by
    rintro row hrow _ hcolumn
    subst hsized
    obtain ⟨column, hmem, rfl⟩ := List.mem_map.1 hcolumn
    exact h row hrow column hmem
  clear h hsized
  induction rows with
  | nil => rfl
  | cons row rows ih =>
      obtain ⟨hrow, hrows⟩ := List.forall_mem_cons.1 hcells
      rw [List.flatMap_cons, List.flatMap_cons, List.append_assoc, plain_line hrow, ih hrows,
        List.append_assoc]

theorem plain_render (h : ∀ row ∈ rows, ∀ column ∈ columns, Unpainted (column.cell row)) :
    plain (render true columns rows) = render false columns rows := by
  have hplain := plain_render_append h []
  rwa [List.append_nil, plain_nil, List.append_nil] at hplain

/-- A table gives each row a line, in which each column of the row stands where the columns before
it end, all as wide as their widest cells; and its colors are sequences that can be taken out. -/
theorem render_aligns (hcolumns : columns ≠ [])
    (hcells : ∀ row ∈ rows, ∀ column ∈ columns, '\n' ∉ column.cell row) :
    (∃ (widths : List Nat) (lines : List (List Char)),
      List.Forall₂ (fun column width => rows ≠ [] →
        IsGreatest {n | ∃ row ∈ rows, (column.cell row).length = n} width) columns widths ∧
      (render false columns rows).splitOn '\n' = lines ++ [[]] ∧
      List.Forall₂ (ShowsRow columns widths) rows lines) ∧
    ((∀ row ∈ rows, ∀ column ∈ columns, Unpainted (column.cell row)) →
      plain (render true columns rows) = render false columns rows) := by
  refine ⟨?_, plain_render⟩
  have hwidths : ∀ {p : Column α → Nat → Prop}, (∀ column, p column (Table.width column rows)) →
      List.Forall₂ p columns (columns.map (Table.width · rows)) := fun hp =>
    List.forall₂_map_right_iff.2 (List.forall₂_same.2 fun column _ => hp column)
  obtain ⟨lines, hlines, hends, hshows⟩ := exists_endedLines fun row hrow =>
    exists_line (hwidths fun column => length_cell_le_width hrow) hcolumns (hcells row hrow)
  refine ⟨_, lines, hwidths isGreatest_width, ?_, hshows⟩
  rw [← splitOn_endedLines hends, ← hlines, ← List.map_prod_left_eq_zip]
  rfl

/-- Amounts at the right of their column, in color, and names. -/
def accountColumns : List (Column (List Char × List Char)) :=
  [{ cell := fun (amount, _) => amount
     alignment := .right
     paint := fun _ => some .yellow },
   { cell := fun (_, name) => name
     alignment := .left
     paint := fun _ => none }]

/-- Two accounts, the first with the longer name and the second with the greater amount. -/
def accounts : List (List Char × List Char) :=
  [("7".toList, "añil".toList), ("120".toList, "ocre".toList)]

/-- The first amount is brought to the width of the second, and the names begin at one place. -/
theorem render_aligns_accounts :
    accountColumns ≠ [] ∧
      (∀ row ∈ accounts, ∀ column ∈ accountColumns, '\n' ∉ column.cell row) ∧
      (∃ lines, (render false accountColumns accounts).splitOn '\n' = lines ++ [[]] ∧
        List.Forall₂ (ShowsRow accountColumns [3, 4]) accounts lines) ∧
      plain (render true accountColumns accounts) = "  7  añil\n120  ocre\n".toList := by
  have hcolumns : accountColumns ≠ [] := List.cons_ne_nil _ _
  have hrows : accounts ≠ [] := List.cons_ne_nil _ _
  have hcells : ∀ row ∈ accounts, ∀ column ∈ accountColumns, '\n' ∉ column.cell row := by decide
  have hescapes : ∀ row ∈ accounts, ∀ column ∈ accountColumns, escape ∉ column.cell row := by
    decide
  obtain ⟨⟨widths, lines, hwidths, hlines, hshows⟩, hplain⟩ := render_aligns hcolumns hcells
  have hsame : widths = [3, 4] := by
    cases hwidths with
    | cons hamounts hwidths =>
        cases hwidths with
        | cons hnames hwidths =>
            cases hwidths
            rw [(hamounts hrows).unique (isGreatest_width _ hrows),
              (hnames hrows).unique (isGreatest_width _ hrows)]
            decide
  refine ⟨hcolumns, hcells, ⟨lines, hlines, hsame ▸ hshows⟩, ?_⟩
  rw [hplain fun row hrow column hcolumn =>
    unpainted_of_notMem (hescapes row hrow column hcolumn)]
  decide

end Table

end Recurrence.Command
