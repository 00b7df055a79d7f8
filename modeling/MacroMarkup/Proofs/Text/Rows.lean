import MacroMarkup.Cursor
import MacroMarkup.Proofs.Text.Split
import MacroMarkup.Text.Indent
import Mathlib.Data.List.Induction

/-! The rows of a text, and the positions that a text has in them. -/
namespace MacroMarkup

namespace Text

theorem rows_break (text : List Char) : rows ('\n' :: text) = [] :: rows text :=
  splitAt_self '\n' text

/-- A character that is no line break stands in the first row. -/
theorem rows_cons {c : Char} (hBreak : c ≠ '\n') (text : List Char) :
    ∃ row more, rows text = row :: more ∧ rows (c :: text) = (c :: row) :: more :=
  splitAt_cons hBreak text

/-- The rows of a text, joined, are the text. -/
theorem ofRows_rows (text : List Char) : ofRows (rows text) = text :=
  intercalate_splitAt '\n' text

/-- Rows without line breaks are the rows of the text that they make. -/
theorem rows_ofRows {pieces : List (List Char)} (hSome : pieces ≠ [])
    (hPieces : ∀ row ∈ pieces, '\n' ∉ row) : rows (ofRows pieces) = pieces :=
  splitAt_intercalate hSome hPieces

/-- The rows determine the text. -/
theorem rows_injective {text text' : List Char} (h : rows text = rows text') : text = text' := by
  rw [← ofRows_rows text, h, ofRows_rows]

/-- No row has a line break. -/
theorem not_mem_rows (text : List Char) : ∀ row ∈ rows text, '\n' ∉ row :=
  not_mem_splitAt '\n' text

/-- A text starts with what is no more than its first row exactly if the row does. -/
theorem prefix_iff_first_row {row text first : List Char} {more : List (List Char)}
    (hRow : '\n' ∉ row) (hRows : rows text = first :: more) : row <+: text ↔ row <+: first := by
  induction text generalizing row first more with
  | nil =>
      cases hRows
      exact Iff.rfl
  | cons c text ih =>
      cases row with
      | nil => simp
      | cons d row =>
          rw [List.mem_cons, not_or] at hRow
          by_cases hBreak : c = '\n'
          · subst hBreak
            rw [rows_break] at hRows
            cases hRows
            simp [List.cons_prefix_cons, Ne.symm hRow.1]
          · obtain ⟨first', more', hText, hMore⟩ := rows_cons hBreak text
            rw [hMore] at hRows
            cases hRows
            rw [List.cons_prefix_cons, List.cons_prefix_cons, ih hRow.2 hText]

/-- A row comes behind a line break if and only if a later row starts with it. -/
theorem break_infix_iff {row text first : List Char} {more : List (List Char)}
    (hRow : '\n' ∉ row) (hRows : rows text = first :: more) :
    '\n' :: row <:+: text ↔ ∃ other ∈ more, row <+: other := by
  induction text generalizing first more with
  | nil =>
      cases hRows
      simp
  | cons c text ih =>
      rw [List.infix_cons_iff, List.cons_prefix_cons]
      obtain ⟨first', more', hText⟩ := List.exists_cons_of_ne_nil (splitAt_ne_nil '\n' text)
      by_cases hBreak : c = '\n'
      · subst hBreak
        rw [rows_break] at hRows
        cases hRows
        rw [prefix_iff_first_row hRow hText, ih hText, rows, hText]
        simp
      · obtain ⟨first'', more'', hText', hMore⟩ := rows_cons hBreak text
        rw [hMore] at hRows
        cases hRows
        rw [ih hText']
        simp [Ne.symm hBreak]

/-- What stands behind a line break is what some row starts with. -/
theorem row_infix_iff {row : List Char} (hRow : '\n' ∉ row) (text : List Char) :
    '\n' :: row <:+: '\n' :: text ↔ ∃ other ∈ rows text, row <+: other :=
  break_infix_iff hRow (rows_break text)

/-- A line break separates the rows in front of it from those behind it. -/
theorem rows_append_break (text text' : List Char) :
    rows (text ++ '\n' :: text') = rows text ++ rows text' := by
  induction text with
  | nil => exact rows_break text'
  | cons c text ih =>
      by_cases hBreak : c = '\n'
      · subst hBreak
        rw [List.cons_append, rows_break, rows_break, ih]
        rfl
      · obtain ⟨first, more, hRows, hMore⟩ := rows_cons hBreak text
        obtain ⟨first', more', hBoth, hMore'⟩ := rows_cons hBreak (text ++ '\n' :: text')
        rw [ih, hRows, List.cons_append] at hBoth
        cases hBoth
        rw [List.cons_append, hMore', hMore]
        rfl

/-- Text without a line break goes on in the first row of what stands behind it. -/
theorem rows_append_row {row : List Char} (hRow : '\n' ∉ row) {text first : List Char}
    {more : List (List Char)} (hRows : rows text = first :: more) :
    rows (row ++ text) = (row ++ first) :: more := by
  induction row with
  | nil => exact hRows
  | cons c row ih =>
      rw [List.mem_cons, not_or] at hRow
      obtain ⟨first', more', hInner, hMore⟩ := rows_cons (Ne.symm hRow.1) (row ++ text)
      rw [ih hRow.2] at hInner
      cases hInner
      exact hMore

/-- There is one row more than there are line breaks. -/
theorem length_rows (text : List Char) : (rows text).length = text.count '\n' + 1 := by
  induction text with
  | nil => rfl
  | cons c text ih =>
      by_cases hBreak : c = '\n'
      · subst hBreak
        rw [rows_break, List.length_cons, ih, List.count_cons_self]
      · obtain ⟨first, more, hRows, hMore⟩ := rows_cons hBreak text
        rw [hRows, List.length_cons] at ih
        rw [hMore, List.length_cons, List.count_cons_of_ne hBreak, ih]

/-- A row may be cut in two. -/
theorem ofRows_cut (front : List (List Char)) (row row' : List Char) (more : List (List Char)) :
    ofRows (front ++ (row ++ row') :: more) = ofRows (front ++ [row]) ++ ofRows (row' :: more) := by
  unfold ofRows
  induction front with
  | nil =>
      cases more with
      | nil => simp
      | cons next more => simp [List.intercalate_cons_cons]
  | cons first front ih =>
      obtain ⟨next, others, hNext⟩ := List.exists_cons_of_ne_nil
        (show front ++ (row ++ row') :: more ≠ [] by simp)
      obtain ⟨next', others', hNext'⟩ := List.exists_cons_of_ne_nil
        (show front ++ [row] ≠ [] by simp)
      rw [hNext, hNext'] at ih
      rw [List.cons_append, List.cons_append, hNext, hNext', List.intercalate_cons_cons,
        List.intercalate_cons_cons, ih, List.append_assoc _ _ ([_].intercalate (row' :: more))]

/-- What a text holds behind its last line break. -/
def lastRow (text : List Char) : List Char :=
  (text.reverse.takeWhile (· ≠ '\n')).reverse

/-- A line break starts an empty last row, and any other character is added to it. -/
theorem lastRow_concat (text : List Char) (c : Char) :
    lastRow (text ++ [c]) = if c = '\n' then [] else lastRow text ++ [c] := by
  unfold lastRow
  by_cases hBreak : c = '\n' <;> simp [hBreak]

/-- A text is its last row, behind a line break if there is one. -/
theorem exists_lastRow (text : List Char) :
    '\n' ∉ lastRow text ∧ (text = lastRow text ∨ ∃ front, text = front ++ '\n' :: lastRow text) := by
  induction text using List.reverseRecOn with
  | nil => exact ⟨List.not_mem_nil, .inl rfl⟩
  | append_singleton text c ih =>
      obtain ⟨hLast, hText⟩ := ih
      rw [lastRow_concat]
      by_cases hBreak : c = '\n'
      · rw [if_pos hBreak]
        exact ⟨List.not_mem_nil, .inr ⟨text, by rw [hBreak]⟩⟩
      · rw [if_neg hBreak]
        refine ⟨by simp [hLast, Ne.symm hBreak], ?_⟩
        obtain hWhole | ⟨front, hFront⟩ := hText
        · exact .inl (congrArg (· ++ [c]) hWhole)
        · refine .inr ⟨front, ?_⟩
          rw [← List.cons_append, ← List.append_assoc, ← hFront]

/-- What was read of a text ends in the row that has as many before it as line breaks were
read, behind the last row of what was read. -/
theorem rows_append (read : List Char) {rest first : List Char} {more : List (List Char)}
    (hRows : rows rest = first :: more) :
    ∃ front, rows (read ++ rest) = front ++ (lastRow read ++ first) :: more ∧
      front.length = read.count '\n' := by
  obtain ⟨hLast, hRead⟩ := exists_lastRow read
  generalize lastRow read = last at hLast hRead ⊢
  obtain rfl | ⟨front, rfl⟩ := hRead
  · exact ⟨[], rows_append_row hLast hRows, (List.count_eq_zero.mpr hLast).symm⟩
  · refine ⟨rows front, ?_, ?_⟩
    · rw [List.append_assoc, List.cons_append, rows_append_break, rows_append_row hLast hRows]
    · rw [length_rows, List.count_append, List.count_cons_self, List.count_eq_zero.mpr hLast]

/-- The last row stands behind as many line breaks as there are rows in front of it. -/
theorem ofRows_concat {front : List (List Char)} {row : List Char}
    (hFront : ∀ other ∈ front, '\n' ∉ other) (hRow : '\n' ∉ row) :
    (ofRows (front ++ [row])).count '\n' = front.length ∧ lastRow (ofRows (front ++ [row])) = row := by
  have hPieces : ∀ other ∈ front ++ [row], '\n' ∉ other := by
    intro other hMem
    rcases List.mem_append.mp hMem with hMem | hMem
    · exact hFront other hMem
    · rwa [List.mem_singleton.mp hMem]
  have hNone : rows [] = [[]] := rfl
  obtain ⟨front', hRows, hCount⟩ := rows_append (ofRows (front ++ [row])) hNone
  rw [List.append_nil, List.append_nil, rows_ofRows (by simp) hPieces] at hRows
  obtain ⟨rfl, hLast⟩ := List.append_inj' hRows rfl
  exact ⟨hCount.symm, (List.cons.inj hLast).1.symm⟩

/-- This much of a text remains behind the position with a row and a column: the number of
the line breaks that were read, and of the characters behind the last of them. -/
def RestAt (text : List Char) (row col : Nat) (rest : List Char) : Prop :=
  ∃ read, text = read ++ rest ∧ row = read.count '\n' ∧ col = (lastRow read).length

/-- Behind a position stand the rest of its row and the rows that follow. -/
theorem restAt_iff {text : List Char} {row col : Nat} {rest : List Char} :
    RestAt text row col rest ↔ ∃ content, (rows text)[row]? = some content ∧
      col ≤ content.length ∧ rest = ofRows (content.drop col :: (rows text).drop (row + 1)) := by
  constructor
  · rintro ⟨read, rfl, rfl, rfl⟩
    obtain ⟨first, more, hRows⟩ := List.exists_cons_of_ne_nil (splitAt_ne_nil '\n' rest)
    obtain ⟨front, hFront, hCount⟩ := rows_append read hRows
    refine ⟨lastRow read ++ first, ?_, ?_, ?_⟩
    · rw [hFront, ← hCount]
      simp
    · simp
    · have hMore : (rows (read ++ rest)).drop (read.count '\n' + 1) = more := by
        rw [hFront, ← hCount]
        simp
      rw [hMore, List.drop_left, ← hRows]
      exact (ofRows_rows rest).symm
  · rintro ⟨content, hContent, hCol, rfl⟩
    obtain ⟨hRow, rfl⟩ := List.getElem?_eq_some_iff.mp hContent
    have hRows : (rows text).take row ++
        ((rows text)[row].take col ++ (rows text)[row].drop col) :: (rows text).drop (row + 1) =
          rows text := by
      rw [List.take_append_drop, ← List.drop_eq_getElem_cons hRow, List.take_append_drop]
    have hWhole : '\n' ∉ (rows text)[row] := not_mem_rows text _ (List.getElem_mem hRow)
    have hRead := ofRows_concat
      (fun other hMem => not_mem_rows text other (List.mem_of_mem_take hMem (i := row)))
      fun hMem => hWhole (List.mem_of_mem_take hMem (i := col))
    refine ⟨ofRows ((rows text).take row ++ [(rows text)[row].take col]), ?_, ?_, ?_⟩
    · rw [← ofRows_cut, hRows, ofRows_rows]
    · rw [hRead.1, List.length_take_of_le (Nat.le_of_lt hRow)]
    · rw [hRead.2, List.length_take_of_le hCol]

/-- Texts whose rows differ in front only have the same behind each later position. -/
theorem restAt_behind {text text' : List Char} {front front' after : List (List Char)}
    (hRows : rows text = front ++ after) (hRows' : rows text' = front' ++ after)
    (hLength : front'.length = front.length) {row col : Nat} {rest : List Char}
    (hRow : front.length ≤ row) : RestAt text row col rest ↔ RestAt text' row col rest := by
  have hDrop : ∀ other : List (List Char), other.length = front.length →
      (other ++ after)[row]? = after[row - front.length]? ∧
        (other ++ after).drop (row + 1) = after.drop (row + 1 - front.length) := by
    intro other hOther
    rw [← hOther] at hRow ⊢
    exact ⟨List.getElem?_append_right hRow, by
      rw [List.drop_append, List.drop_eq_nil_of_le (Nat.le_succ_of_le hRow), List.nil_append]⟩
  rw [restAt_iff, restAt_iff, hRows, hRows', (hDrop front rfl).1, (hDrop front rfl).2,
    (hDrop front' hLength).1, (hDrop front' hLength).2]

/-- A row and a column are the position of some prefix: the number of its line breaks,
and of the characters behind the last of them. -/
def HasPosition (text : List Char) (row col : Nat) : Prop :=
  ∃ read, read <+: text ∧ row = read.count '\n' ∧ col = (lastRow read).length

/-- A position is a row of the text, and a column of that row or its end. -/
theorem hasPosition_iff {text : List Char} {row col : Nat} :
    HasPosition text row col ↔ ∃ content, (rows text)[row]? = some content ∧ col ≤ content.length := by
  have hRest : HasPosition text row col ↔ ∃ rest, RestAt text row col rest := by
    constructor
    · rintro ⟨read, ⟨rest, hText⟩, hPosition⟩
      exact ⟨rest, read, hText.symm, hPosition⟩
    · rintro ⟨rest, read, hText, hPosition⟩
      exact ⟨read, ⟨rest, hText.symm⟩, hPosition⟩
  rw [hRest]
  simp only [restAt_iff]
  constructor
  · rintro ⟨rest, content, hContent, hCol, -⟩
    exact ⟨content, hContent, hCol⟩
  · rintro ⟨content, hContent, hCol⟩
    exact ⟨_, content, hContent, hCol, rfl⟩

instance (text : List Char) (row col : Nat) : Decidable (HasPosition text row col) :=
  decidable_of_iff (((rows text)[row]?).any fun content => col ≤ content.length) <| by
    rw [hasPosition_iff]
    cases (rows text)[row]? <;> simp

end Text

namespace Cursor

/-- The cursor goes along two texts one after the other. -/
theorem advance_append (cursor : Cursor) (text more : List Char) :
    cursor.advance (text ++ more) = (cursor.advance text).advance more :=
  List.foldl_append

/-- A cursor counts line breaks, and the characters behind the last of them. -/
theorem advance_start (text : List Char) :
    (start.advance text).row = text.count '\n' ∧
      (start.advance text).col = (Text.lastRow text).length := by
  induction text using List.reverseRecOn with
  | nil => exact ⟨rfl, rfl⟩
  | append_singleton text c ih =>
      have hNext : start.advance (text ++ [c]) = (start.advance text).next c := advance_append ..
      rw [hNext]
      unfold next Text.lastRow
      by_cases hBreak : c = '\n'
      · simp [hBreak, ih.1]
      · simp [hBreak, ih.1, ih.2, Text.lastRow]

end Cursor

namespace Text

/-- The cursor stands at a position of the text that it goes along. -/
theorem hasPosition_advance {text read : List Char} (h : read <+: text) :
    HasPosition text (Cursor.start.advance read).row (Cursor.start.advance read).col :=
  ⟨read, h, Cursor.advance_start read⟩

end Text

end MacroMarkup
