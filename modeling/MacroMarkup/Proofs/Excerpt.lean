import MacroMarkup.Error
import MacroMarkup.Proofs.Text.Rows
import Mathlib.Data.List.Sort

/-! The lines that are shown around the row of an error. A text that ends in a line break has
an empty row behind it, where errors at the end of input are found. This row is not among the
lines of the text, so no line is marked for such an error. -/
namespace MacroMarkup

namespace Excerpt

/-- The number of rows that can be shown: an empty last row cannot. -/
def shownCount (text : List Char) : Nat :=
  if Text.lastRow text = [] then text.count '\n' else text.count '\n' + 1

/-- What is shown of a row: not a carriage return in front of its line break. -/
def shownRow (text : List Char) (row : Nat) : List Char :=
  let content := (Text.rows text)[row]?.getD []
  if row < text.count '\n' then lines.trimReturn content else content

/-- A row loses at most its end. -/
theorem trimReturn_isPrefix (row : List Char) : lines.trimReturn row <+: row := by
  unfold lines.trimReturn
  split
  · exact List.dropLast_prefix row
  · exact List.prefix_refl row

/-- A row that is shown has no line break. -/
theorem break_not_mem_shownRow (text : List Char) (row : Nat) : '\n' ∉ shownRow text row := by
  have hContent : '\n' ∉ (Text.rows text)[row]?.getD [] := by
    cases hRow : (Text.rows text)[row]? with
    | none => exact List.not_mem_nil
    | some content => exact Text.not_mem_rows text content (List.mem_of_getElem? hRow)
  unfold shownRow
  dsimp only
  split
  · exact fun hMem => hContent ((trimReturn_isPrefix _).subset hMem)
  · exact hContent

/-- The lines are the rows that are shown, each in its place. -/
theorem lines_eq_map_shownRow (text : String) :
    lines text = (List.range (shownCount text.toList)).map (shownRow text.toList) := by
  have hNone : Text.rows [] = [[]] := rfl
  obtain ⟨front, hRows, hCount⟩ := Text.rows_append text.toList hNone
  rw [List.append_nil, List.append_nil] at hRows
  have hEnded : (List.range front.length).map (shownRow text.toList) = front.map lines.trimReturn := by
    refine List.ext_getElem (by simp) fun row hRow hFront => ?_
    rw [List.length_map] at hFront
    simp [shownRow, hRows, ← hCount, hFront, List.getElem?_append_left hFront]
  have hLast : shownRow text.toList front.length = Text.lastRow text.toList := by
    simp [shownRow, hRows, ← hCount]
  unfold lines shownCount
  simp only [hRows, List.dropLast_concat, List.getLastD_concat, ← hCount]
  split
  · rename_i hEmpty
    rw [if_pos hEmpty, hEnded]
  · rename_i hUnended
    rw [if_neg hUnended, List.range_succ, List.map_append, hEnded, List.map_singleton, hLast]

/-- The rows around an error that can be shown: itself and two on either side. -/
def window (errorRow count : Nat) : List Nat :=
  (List.range count).filter fun row => errorRow ≤ row + 2 ∧ row ≤ errorRow + 2

/-- The rows around the error are a window of all rows. -/
theorem take_drop_range (errorRow count : Nat) :
    ((List.range count).take (errorRow + 3)).drop (errorRow - 2) = window errorRow count := by
  refine List.pairwise_lt_range.take.drop.eq_of_mem_iff
    (List.pairwise_lt_range.filter _) fun row => ?_
  rw [List.take_range, List.range_eq_range', List.drop_range', List.mem_range'_1, window,
    List.mem_filter, List.mem_range, decide_eq_true_eq]
  omega

/-- A line of an excerpt without its line break. -/
def written (errorRow row : Nat) (content : List Char) : List Char :=
  (if row = errorRow then ">>" else "  ").toList ++ ' ' :: (lineNumber (row + 1)).toList ++
    " | ".toList ++ content

/-- A line of the excerpt is what is written for its row, up to its line break. -/
theorem line_eq_ofList_written (errorRow row : Nat) (content : List Char) :
    line errorRow row content = String.ofList (written errorRow row content ++ ['\n']) := by
  refine String.toList_injective ?_
  simp [line, written]

theorem break_not_mem_lineNumber (number : Nat) : '\n' ∉ (lineNumber number).toList := by
  unfold lineNumber
  rw [String.toList_append, String.toList_ofList, List.mem_append, not_or]
  refine ⟨fun hMem => absurd (List.eq_of_mem_replicate hMem) (by decide), fun hMem => ?_⟩
  rw [Nat.toString_eq_repr, Nat.toList_repr] at hMem
  exact absurd (Nat.isDigit_of_mem_toDigits (by decide) (by decide) hMem) (by decide)

/-- What is written for a row stays in one line. -/
theorem break_not_mem_written {content : List Char} (hContent : '\n' ∉ content) (errorRow row : Nat) :
    '\n' ∉ written errorRow row content := by
  have hMark : '\n' ∉ (if row = errorRow then ">>" else "  ").toList := by
    split <;> decide
  unfold written
  simp [hMark, hContent, break_not_mem_lineNumber]

/-- What has a line break behind it is a row. -/
theorem rows_join {pieces : List (List Char)} (hPieces : ∀ piece ∈ pieces, '\n' ∉ piece) :
    Text.rows (String.join (pieces.map fun piece => String.ofList (piece ++ ['\n']))).toList =
      pieces ++ [[]] := by
  induction pieces with
  | nil => rfl
  | cons piece pieces ih =>
      rw [List.forall_mem_cons] at hPieces
      rw [List.map_cons, String.join_cons, String.toList_append, String.toList_ofList,
        List.append_assoc, List.singleton_append, Text.rows, Text.splitAt_append hPieces.1]
      exact congrArg (piece :: ·) (ih hPieces.2)

theorem zipIdx_lines (text : String) :
    (lines text).zipIdx =
      (List.range (shownCount text.toList)).map fun row => (shownRow text.toList row, row) := by
  rw [lines_eq_map_shownRow]
  refine List.ext_getElem (by simp) fun row hRow hShown => ?_
  simp

/-- An excerpt shows the rows in the window, in order and numbered. -/
theorem rows_excerpt (text : String) (errorRow : Nat) :
    Text.rows (excerpt text errorRow).toList =
      (window errorRow (shownCount text.toList)).map
        (fun row => written errorRow row (shownRow text.toList row)) ++ [[]] := by
  have hShown : excerpt text errorRow =
      String.join (((window errorRow (shownCount text.toList)).map
        fun row => written errorRow row (shownRow text.toList row)).map
          fun piece => String.ofList (piece ++ ['\n'])) := by
    unfold excerpt
    dsimp only
    rw [zipIdx_lines, ← List.map_take, ← List.map_drop, take_drop_range, List.map_map, List.map_map]
    simp only [Function.comp_def, line_eq_ofList_written]
  rw [hShown, rows_join]
  intro piece hMem
  obtain ⟨row, -, rfl⟩ := List.mem_map.mp hMem
  exact break_not_mem_written (break_not_mem_shownRow text.toList row) errorRow row

/-- The lines of an excerpt that are marked as the line of the error. -/
def marked (shown : List (List Char)) : List (List Char) :=
  shown.filter fun row => ">>".toList.isPrefixOf row

/-- The mark stands in front of the row of the error, and nowhere else. -/
theorem marked_written (errorRow row : Nat) (content : List Char) :
    ">>".toList.isPrefixOf (written errorRow row content) = decide (row = errorRow) := by
  unfold written
  by_cases hRow : row = errorRow
  · rw [if_pos hRow, decide_eq_true hRow]
    rfl
  · rw [if_neg hRow, decide_eq_false hRow]
    rfl

/-- The row of the error is in its window, if there is one. -/
theorem window_self (errorRow count : Nat) :
    (window errorRow count).filter (· = errorRow) = if errorRow < count then [errorRow] else [] := by
  refine (List.Pairwise.filter _ (List.pairwise_lt_range.filter _)).eq_of_mem_iff
    (r := (· < ·)) ?_ fun row => ?_
  · split <;> simp
  · split <;> simp [List.mem_filter] <;> omega

/-- One line is marked if the row of the error can be shown, and else none. -/
theorem marked_excerpt (text : String) (errorRow : Nat) :
    marked (Text.rows (excerpt text errorRow).toList) =
      if errorRow < shownCount text.toList then
        [written errorRow errorRow (shownRow text.toList errorRow)]
      else [] := by
  rw [rows_excerpt, marked, List.filter_append, List.filter_map]
  simp only [Function.comp_def, marked_written, window_self]
  split <;> rfl

/-- Where a reader stands in a text, the rows around it are shown, in order. Its own row is
the one that is marked, unless the reader is behind the line break that the text ends in. -/
theorem error_row_marked_iff {text : String} {read : List Char} {row : Nat}
    (hRead : read <+: text.toList) (hRow : row = (Cursor.start.advance read).row) :
    Text.rows (excerpt text row).toList =
      (window row (shownCount text.toList)).map
        (fun other => written row other (shownRow text.toList other)) ++ [[]] ∧
    (marked (Text.rows (excerpt text row).toList) = [written row row (shownRow text.toList row)] ↔
      ¬ (row = text.toList.count '\n' ∧ Text.lastRow text.toList = [])) := by
  refine ⟨rows_excerpt text row, ?_⟩
  have hReached : row ≤ text.toList.count '\n' := by
    rw [hRow, (Cursor.advance_start read).1]
    exact hRead.sublist.count_le _
  have hShown : row < shownCount text.toList ↔
      ¬ (row = text.toList.count '\n' ∧ Text.lastRow text.toList = []) := by
    unfold shownCount
    by_cases hEnd : Text.lastRow text.toList = []
    · rw [if_pos hEnd, and_iff_left hEnd]
      omega
    · rw [if_neg hEnd, iff_true_right (fun hBoth => hEnd hBoth.2)]
      omega
  rw [marked_excerpt, ← hShown]
  by_cases hIn : row < shownCount text.toList
  · rw [if_pos hIn]
    exact iff_of_true rfl hIn
  · rw [if_neg hIn]
    exact iff_of_false (List.cons_ne_nil _ _).symm hIn

/-- An error in the last row of a text without a line break at its end. -/
theorem error_row_marked_last :
    Text.rows (excerpt "a\r\nb" 1).toList = ["     1 | a".toList, ">>   2 | b".toList, []] ∧
      marked (Text.rows (excerpt "a\r\nb" 1).toList) = [">>   2 | b".toList] := by
  obtain ⟨hRows, hMarked⟩ :=
    @error_row_marked_iff "a\r\nb" "a\r\nb".toList 1 (List.prefix_refl _) (by decide)
  exact ⟨hRows.trans (by decide +kernel), (hMarked.mpr (by decide)).trans (by decide +kernel)⟩

/-- An unclosed formula is found at the end of the text, in the row behind its line break. The
excerpt does not have this row. -/
theorem error_row_unmarked :
    (Cursor.start.advance "$x\n".toList).row = 1 ∧ excerpt "$x\n" 1 = "     1 | $x\n" ∧
      marked (Text.rows (excerpt "$x\n" 1).toList) = [] := by
  decide +kernel

end Excerpt

end MacroMarkup
