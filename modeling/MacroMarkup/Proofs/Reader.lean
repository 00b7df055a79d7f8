import MacroMarkup.Proofs.Text.Split
import MacroMarkup.Reader

/-! What a step of a reader leaves to be read, what it has read by then, and how
the row is indented that it stands in. -/
namespace MacroMarkup.Reader

theorem rest_advance (count : Nat) (reader : Reader) :
    (reader.advance count).rest = reader.rest.drop count := by
  induction count generalizing reader with
  | zero => rfl
  | succ count ih =>
      rw [advance, ih]
      unfold next
      cases hRest : reader.rest with
      | nil => simp [hRest]
      | cons c rest => rfl

/-- What has been read stands in front of the place reached. -/
theorem before_advance (count : Nat) (reader : Reader) :
    (reader.advance count).before = (reader.rest.take count).reverse ++ reader.before := by
  induction count generalizing reader with
  | zero => rfl
  | succ count ih =>
      rw [advance, ih]
      unfold next
      cases hRest : reader.rest with
      | nil => simp [hRest]
      | cons c rest => simp

/-- The cursor goes along with what is read. -/
theorem cursor_advance (count : Nat) (reader : Reader) :
    (reader.advance count).cursor = reader.cursor.advance (reader.rest.take count) := by
  induction count generalizing reader with
  | zero => rfl
  | succ count ih =>
      rw [advance, ih]
      unfold next
      cases hRest : reader.rest with
      | nil => simp [hRest]
      | cons c rest => rfl

theorem advance_advance (count count' : Nat) (reader : Reader) :
    (reader.advance count).advance count' = reader.advance (count + count') := by
  induction count generalizing reader with
  | zero => rw [Nat.zero_add]; rfl
  | succ count ih =>
      rw [Nat.succ_add]
      exact ih reader.next

/-- Behind the end there is nothing to read. -/
theorem advance_of_length_le {reader : Reader} {count : Nat} (h : reader.rest.length ≤ count) :
    reader.advance count = reader.advance reader.rest.length := by
  have hEnd : ∀ count {reader : Reader}, reader.rest = [] → reader.advance count = reader := by
    intro count
    induction count with
    | zero => exact fun _ => rfl
    | succ count ih =>
        intro reader hRest
        have hNext : reader.next = reader := by
          unfold next
          rw [hRest]
        rw [advance, hNext, ih hRest]
  obtain ⟨more, rfl⟩ := Nat.exists_eq_add_of_le h
  rw [← advance_advance]
  refine hEnd more ?_
  rw [rest_advance, List.drop_length]

/-- What was read of the row that holds the place reached. -/
def row (reader : Reader) : List Char :=
  (reader.before.takeWhile (· ≠ '\n')).reverse

/-- A line break starts an empty row, and any other character is added to the row. -/
theorem row_next {reader : Reader} {c : Char} {rest : List Char} (hRest : reader.rest = c :: rest) :
    reader.next.row = if c = '\n' then [] else reader.row ++ [c] := by
  unfold row next
  rw [hRest]
  by_cases hBreak : c = '\n'
  · simp [hBreak]
  · simp [hBreak]

/-- Behind a line break nothing was read of the row. -/
theorem row_advance_break {reader : Reader} {text more : List Char}
    (hRest : reader.rest = text ++ '\n' :: more) : (reader.advance (text.length + 1)).row = [] := by
  have hSplit : reader.rest = (text ++ ['\n']) ++ more := by
    rw [hRest, List.append_assoc]
    rfl
  have hTake : reader.rest.take (text.length + 1) = text ++ ['\n'] := by
    rw [hSplit, List.take_left' (by simp)]
  unfold row
  rw [before_advance, hTake, List.reverse_append]
  simp

/-- Behind a row only that row was read of it. -/
theorem row_advance_row {reader : Reader} {count : Nat} {text row : List Char}
    (hTake : reader.rest.take count = text ++ '\n' :: row) (hRow : '\n' ∉ row) :
    (reader.advance count).row = row := by
  have hWithin : ∀ c ∈ row.reverse, decide (c ≠ '\n') = true := by
    intro c hMem
    rw [decide_eq_true_eq]
    rintro rfl
    exact hRow (List.mem_reverse.mp hMem)
  unfold Reader.row
  rw [before_advance, hTake, List.reverse_append, List.reverse_cons, List.append_assoc,
    List.append_assoc, List.takeWhile_append_of_pos hWithin]
  simp

/-- Readers in rows that are indented alike, whatever goes on in them. -/
def Aligned (reader reader' : Reader) : Prop :=
  ∀ text, Text.indentOf (reader.row ++ text) = Text.indentOf (reader'.row ++ text)

/-- Readers that read the same text stay aligned. -/
theorem Aligned.advance {reader reader' : Reader} (h : reader.Aligned reader') {text : List Char}
    (hRest : text <+: reader.rest) (hRest' : text <+: reader'.rest) :
    (reader.advance text.length).Aligned (reader'.advance text.length) := by
  induction text generalizing reader reader' with
  | nil => exact h
  | cons c text ih =>
      obtain ⟨after, hAfter⟩ := hRest
      obtain ⟨after', hAfter'⟩ := hRest'
      rw [List.cons_append] at hAfter hAfter'
      have hNext : reader.next.rest = text ++ after := by
        unfold next
        rw [← hAfter]
      have hNext' : reader'.next.rest = text ++ after' := by
        unfold next
        rw [← hAfter']
      refine ih (fun more => ?_) ⟨after, hNext.symm⟩ ⟨after', hNext'.symm⟩
      rw [row_next hAfter.symm, row_next hAfter'.symm]
      split
      · rfl
      · rw [List.append_assoc, List.append_assoc]
        exact h _

/-- Readers of the same text stay in rows that are indented alike. -/
theorem Aligned.advance_same {reader reader' : Reader} (h : reader.Aligned reader')
    (hRest : reader'.rest = reader.rest) (count : Nat) :
    (reader.advance count).Aligned (reader'.advance count) := by
  have hWithin : ∀ count ≤ reader.rest.length,
      (reader.advance count).Aligned (reader'.advance count) := by
    intro count hCount
    have hLength : (reader.rest.take count).length = count := List.length_take_of_le hCount
    have hSteps := h.advance (List.take_prefix count reader.rest)
      (hRest ▸ List.take_prefix count reader.rest)
    rwa [hLength] at hSteps
  by_cases hCount : count ≤ reader.rest.length
  · exact hWithin count hCount
  · have hEnd := hWithin reader.rest.length (Nat.le_refl _)
    have hFull : reader.advance count = reader.advance reader.rest.length :=
      advance_of_length_le (by omega)
    have hFull' : reader'.advance count = reader'.advance reader.rest.length := by
      rw [advance_of_length_le (by rw [hRest]; omega), hRest]
    rwa [hFull, hFull']

/-- The indentation of a row is known with its first visible character. -/
theorem indentOf_append {row : List Char} (hSeen : ∃ c ∈ row, c ≠ ' ') (text : List Char) :
    Text.indentOf (row ++ text) = Text.indentOf row := by
  obtain ⟨c, hMem, hVisible⟩ := hSeen
  unfold Text.indentOf
  rw [Text.takeWhile_append ⟨c, hMem, decide_eq_false hVisible⟩]

/-- In a row with visible text the indentation does not depend on what follows. -/
theorem Aligned.indent {reader reader' : Reader} (h : reader.Aligned reader')
    (hSeen : ∃ c ∈ reader.row, c ≠ ' ') : reader'.indent = reader.indent := by
  change Text.indentOf (reader'.row ++ reader'.rest) = Text.indentOf (reader.row ++ reader.rest)
  rw [← h, indentOf_append hSeen, indentOf_append hSeen]

/-- Characters that are read without a line break stand in the row that is reached. -/
theorem mem_row_advance {reader : Reader} {text : List Char} (hRest : text <+: reader.rest)
    (hBreak : '\n' ∉ text) {c : Char} (hMem : c ∈ text) :
    c ∈ (reader.advance text.length).row := by
  have hTake : reader.rest.take text.length = text := (List.prefix_iff_eq_take.mp hRest).symm
  unfold row
  rw [before_advance, hTake, List.takeWhile_append_of_pos, List.mem_reverse, List.mem_append]
  · exact .inl (List.mem_reverse.mpr hMem)
  · intro d hd
    rw [List.mem_reverse] at hd
    rw [decide_eq_true_eq]
    rintro rfl
    exact hBreak hd

/-- Inside of a row nothing changes what the row is. -/
theorem currentRow_advance {reader : Reader} {text : List Char} (hRest : text <+: reader.rest)
    (hBreak : '\n' ∉ text) : (reader.advance text.length).currentRow = reader.currentRow := by
  obtain ⟨after, hAfter⟩ := hRest
  unfold currentRow
  rw [before_advance, rest_advance, ← hAfter, List.take_left, List.drop_left,
    List.takeWhile_append_of_pos, List.reverse_append, List.reverse_reverse, List.append_assoc]
  intro c hc
  rw [decide_eq_true_eq]
  rintro rfl
  exact hBreak (List.mem_reverse.mp hc)

end MacroMarkup.Reader
