import MacroMarkup.Proofs.Text.Rows
import Mathlib.Data.List.Forall2

/-! Indentation put in front of rows, and taken off again. -/
namespace MacroMarkup.Text

theorem indentOf_cons (c : Char) (row : List Char) :
    indentOf (c :: row) = if c = ' ' then indentOf row + 1 else 0 := by
  unfold indentOf
  rw [List.takeWhile_cons]
  by_cases hSpace : c = ' '
  · simp [hSpace]
  · simp [hSpace]

/-- Spaces in front of a row are added to its indentation. -/
theorem indentOf_spaces (count : Nat) (row : List Char) :
    indentOf (List.replicate count ' ' ++ row) = count + indentOf row := by
  induction count with
  | zero => rw [List.replicate_zero, List.nil_append, Nat.zero_add]
  | succ count ih =>
      rw [List.replicate_succ, List.cons_append, indentOf_cons, if_pos rfl, ih]
      omega

theorem isAllBlank_spaces (count : Nat) (row : List Char) :
    isAllBlank (List.replicate count ' ' ++ row) = isAllBlank row := by
  induction count with
  | zero => rfl
  | succ count ih => exact ih

/-- What is taken off a row are spaces. -/
theorem spaces_append_stripRow (count : Nat) (row : List Char) :
    List.replicate (min (indentOf row) count) ' ' ++ stripRow count row = row := by
  induction row generalizing count with
  | nil => simp [stripRow, indentOf]
  | cons c row ih =>
      unfold stripRow at ih ⊢
      rw [indentOf_cons]
      by_cases hSpace : c = ' '
      · cases count with
        | zero => simp
        | succ count =>
            rw [if_pos hSpace, Nat.add_min_add_right, List.replicate_succ, List.drop_succ_cons,
              List.cons_append, ih, hSpace]
      · rw [if_neg hSpace, Nat.zero_min]
        rfl

/-- As many spaces are stripped as were put in front. -/
theorem stripRow_spaces (count : Nat) (row : List Char) :
    stripRow count (List.replicate count ' ' ++ row) = row := by
  unfold stripRow
  rw [indentOf_spaces, Nat.min_eq_right (Nat.le_add_right _ _), List.drop_left' List.length_replicate]

/-- A stripped row is indented by so much less. -/
theorem indentOf_stripRow (count : Nat) (row : List Char) :
    indentOf (stripRow count row) = indentOf row - count := by
  have hWhole := congrArg indentOf (spaces_append_stripRow count row)
  rw [indentOf_spaces] at hWhole
  omega

/-- Stripping spaces leaves a row blank or not as it was. -/
theorem isAllBlank_stripRow (count : Nat) (row : List Char) :
    isAllBlank (stripRow count row) = isAllBlank row := by
  have hWhole := congrArg isAllBlank (spaces_append_stripRow count row)
  rwa [isAllBlank_spaces] at hWhole

/-- Of the spaces in front of a row, some and then some more come to all of them at once. -/
theorem stripRow_stripRow (count count' : Nat) (row : List Char) :
    stripRow count' (stripRow count row) = stripRow (count + count') row := by
  have hSpaces : min (indentOf row) count + min (indentOf row - count) count' =
      min (indentOf row) (count + count') := by omega
  calc stripRow count' (stripRow count row)
      = (stripRow count row).drop (min (indentOf row - count) count') := by
        rw [stripRow, indentOf_stripRow]
    _ = row.drop (min (indentOf row) (count + count')) := by
        rw [stripRow, List.drop_drop, hSpaces]

/-- A text is stripped row by row. -/
theorem rows_stripIndent (text : List Char) (count : Nat) :
    rows (stripIndent text count) = (rows text).map (stripRow count) := by
  refine rows_ofRows (by simp [rows, splitAt_ne_nil]) fun row hMem => ?_
  obtain ⟨whole, hWhole, rfl⟩ := List.mem_map.mp hMem
  exact fun hBreak => not_mem_rows text whole hWhole (List.mem_of_mem_drop hBreak)

/-- The least indentation is that of some row, and no row that is not blank has less. -/
theorem blockIndent_eq_some_iff {text : List Char} {least : Nat} :
    blockIndent text = some least ↔
      (∃ row ∈ rows text, isAllBlank row = false ∧ indentOf row = least) ∧
        ∀ row ∈ rows text, isAllBlank row = false → least ≤ indentOf row := by
  unfold blockIndent
  rw [List.min?_eq_some_iff, List.mem_map, List.forall_mem_map]
  simp only [List.mem_filter, Bool.not_eq_true', and_assoc, and_imp]

/-- A block has no indentation if and only if all of its rows are blank. -/
theorem blockIndent_eq_none_iff {text : List Char} :
    blockIndent text = none ↔ ∀ row ∈ rows text, isAllBlank row = true := by
  unfold blockIndent
  rw [List.min?_eq_none_iff]
  simp

/-- Taking indentation off lessens the least one, down to none. -/
theorem blockIndent_stripIndent (text : List Char) (count : Nat) :
    blockIndent (stripIndent text count) = (blockIndent text).map (· - count) := by
  cases hLeast : blockIndent text with
  | none =>
      rw [blockIndent_eq_none_iff] at hLeast
      rw [Option.map_none, blockIndent_eq_none_iff, rows_stripIndent, List.forall_mem_map]
      exact fun row hMem => (isAllBlank_stripRow count row).trans (hLeast row hMem)
  | some least =>
      obtain ⟨⟨row, hMem, hVisible, rfl⟩, hLeast⟩ := blockIndent_eq_some_iff.mp hLeast
      rw [Option.map_some, blockIndent_eq_some_iff, rows_stripIndent, List.forall_mem_map]
      refine ⟨⟨stripRow count row, List.mem_map_of_mem hMem, ?_, indentOf_stripRow count row⟩, ?_⟩
      · rw [isAllBlank_stripRow, hVisible]
      · intro other hOther hShown
        rw [isAllBlank_stripRow] at hShown
        rw [indentOf_stripRow]
        exact Nat.sub_le_sub_right (hLeast other hOther hShown) count

/-- Stripping twice strips both counts. -/
theorem stripIndent_stripIndent (text : List Char) (count count' : Nat) :
    stripIndent (stripIndent text count) count' = stripIndent text (count + count') := by
  have hRows : (rows (stripIndent text count)).map (stripRow count') =
      (rows text).map (stripRow (count + count')) := by
    rw [rows_stripIndent, List.map_map]
    exact List.map_congr_left fun row _ => stripRow_stripRow count count' row
  rw [stripIndent, hRows, stripIndent]

theorem map_isAllBlank_stripIndent (text : List Char) (count : Nat) :
    (rows (stripIndent text count)).map isAllBlank = (rows text).map isAllBlank := by
  rw [rows_stripIndent, List.map_map]
  exact List.map_congr_left fun row _ => isAllBlank_stripRow count row

/-- Indentation is taken off in one go or little by little. It leaves as many rows as there
were, of which the same are blank, and lessens the indentation that the others share, down to
none. Where no row is visible there is none to share. -/
theorem indentation_composes (text : List Char) (count count' : Nat) :
    stripIndent (stripIndent text count) count' = stripIndent text (count + count') ∧
    (rows (stripIndent text count)).length = (rows text).length ∧
    (rows (stripIndent text count)).map isAllBlank = (rows text).map isAllBlank ∧
    blockIndent (stripIndent text count) = (blockIndent text).map (· - count) := by
  refine ⟨stripIndent_stripIndent text count count', ?_, map_isAllBlank_stripIndent text count,
    blockIndent_stripIndent text count⟩
  rw [rows_stripIndent, List.length_map]

/-- Text with its rows written behind a number of spaces. An empty row may stay empty. -/
def Indented (width : Nat) (text written : List Char) : Prop :=
  List.Forall₂ (fun row row' => row' = List.replicate width ' ' ++ row ∨ row = [] ∧ row' = [])
    (rows text) (rows written)

section Indented

variable {width : Nat} {text written : List Char} (h : Indented width text written)
include h

/-- Stripping the indentation gives the rows back. -/
theorem Indented.map_stripRow : (rows written).map (stripRow width) = rows text := by
  unfold Indented at h
  generalize rows text = plain at h ⊢
  generalize rows written = indented at h ⊢
  induction h with
  | nil => rfl
  | cons hRow _ ih =>
      rw [List.map_cons, ih]
      obtain rfl | ⟨rfl, rfl⟩ := hRow
      · rw [stripRow_spaces]
      · rw [stripRow, List.drop_nil]

/-- An indented row is empty, or starts with the indentation. -/
theorem Indented.written_row {row : List Char} (hMem : row ∈ rows written) :
    row = [] ∨ List.replicate width ' ' <+: row := by
  unfold Indented at h
  generalize rows text = plain at h
  generalize rows written = indented at h hMem
  induction h with
  | nil => cases hMem
  | cons hRow _ ih =>
      rcases List.mem_cons.mp hMem with rfl | hMem
      · obtain rfl | ⟨-, rfl⟩ := hRow
        · exact .inr (List.prefix_append _ _)
        · exact .inl rfl
      · exact ih hMem

/-- Taking the spaces off gives back the text. -/
theorem Indented.stripIndent_eq : stripIndent written width = text := by
  rw [stripIndent, h.map_stripRow, ofRows_rows]

/-- An indented block has so much more indentation. -/
theorem Indented.blockIndent_eq : blockIndent written = (blockIndent text).map (· + width) := by
  have hStrip := blockIndent_stripIndent written width
  rw [h.stripIndent_eq] at hStrip
  cases hLeast : blockIndent written with
  | none => rw [hStrip, hLeast]; rfl
  | some least =>
      obtain ⟨⟨row, hMem, hVisible, rfl⟩, -⟩ := blockIndent_eq_some_iff.mp hLeast
      have hWidth : width ≤ indentOf row := by
        obtain rfl | ⟨more, rfl⟩ := h.written_row hMem
        · cases hVisible
        · rw [indentOf_spaces]
          exact Nat.le_add_right _ _
      rw [hStrip, hLeast, Option.map_some, Option.map_some, Nat.sub_add_cancel hWidth]

end Indented

end MacroMarkup.Text
