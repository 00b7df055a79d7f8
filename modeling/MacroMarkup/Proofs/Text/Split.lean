import MacroMarkup.Text.Split
import Mathlib.Data.List.Basic

/-! The pieces of a text between separators, where a marker is first found in it, and
texts of nothing but blanks. -/
namespace MacroMarkup.Text

section Members

variable {α : Type} (p : α → Prop) [DecidablePred p] (items : List α) (item? : Option α)

-- A library decides what holds of a character by going through all characters there are.
-- What holds of the members of a list is always decided by going through the list.
instance (priority := 2000) decidableForallMember : Decidable (∀ item ∈ items, p item) :=
  List.decidableBAll p items

instance (priority := 2000) decidableExistsMember : Decidable (∃ item ∈ items, p item) :=
  List.decidableBEx p items

instance (priority := 2000) decidableForallOptional : Decidable (∀ item ∈ item?, p item) :=
  Option.decidableForallMem item?

end Members

/-- What comes up to a character is known where the character is. -/
theorem takeWhile_append {p : Char → Bool} {text : List Char} (hStop : ∃ c ∈ text, p c = false)
    (after : List Char) : (text ++ after).takeWhile p = text.takeWhile p := by
  induction text with
  | nil =>
      obtain ⟨c, hMem, -⟩ := hStop
      cases hMem
  | cons d text ih =>
      rw [List.cons_append, List.takeWhile_cons, List.takeWhile_cons]
      cases hHead : p d with
      | false => rfl
      | true =>
          have hMore : ∃ c ∈ text, p c = false := by
            obtain ⟨c, hMem, hNot⟩ := hStop
            rcases List.mem_cons.mp hMem with rfl | hMem
            · rw [hHead] at hNot
              cases hNot
            · exact ⟨c, hMem, hNot⟩
          rw [ih hMore]

/-- Text of nothing but spaces and line breaks. -/
def Spacing (text : List Char) : Prop :=
  ∀ c ∈ text, c = ' ' ∨ c = '\n'

instance (text : List Char) : Decidable (Spacing text) :=
  inferInstanceAs (Decidable (∀ c ∈ text, c = ' ' ∨ c = '\n'))

theorem spacing_nil : Spacing [] :=
  fun _ h => nomatch h

theorem Spacing.append {text text' : List Char} (h : Spacing text) (h' : Spacing text') :
    Spacing (text ++ text') := by
  intro c hMem
  rcases List.mem_append.mp hMem with hMem | hMem
  · exact h c hMem
  · exact h' c hMem

theorem splitAt_self (separator : Char) (text : List Char) :
    splitAt separator (separator :: text) = [] :: splitAt separator text := by
  rw [splitAt]
  cases hPieces : splitAt separator text with
  | nil => exact absurd hPieces (splitAt_ne_nil separator text)
  | cons piece more => exact if_pos rfl

/-- A character that does not separate stands in the first piece. -/
theorem splitAt_cons {separator c : Char} (hNot : c ≠ separator) (text : List Char) :
    ∃ piece more, splitAt separator text = piece :: more ∧
      splitAt separator (c :: text) = (c :: piece) :: more := by
  rw [splitAt]
  cases hPieces : splitAt separator text with
  | nil => exact absurd hPieces (splitAt_ne_nil separator text)
  | cons piece more => exact ⟨piece, more, rfl, if_neg hNot⟩

/-- The pieces, joined, are the text. -/
theorem intercalate_splitAt (separator : Char) (text : List Char) :
    [separator].intercalate (splitAt separator text) = text := by
  induction text with
  | nil => rfl
  | cons c text ih =>
      by_cases hHere : c = separator
      · subst hHere
        rw [splitAt_self]
        cases hPieces : splitAt c text with
        | nil => exact absurd hPieces (splitAt_ne_nil c text)
        | cons piece more =>
            rw [hPieces] at ih
            rw [← ih]
            rfl
      · obtain ⟨piece, more, hPieces, hMore⟩ := splitAt_cons hHere text
        rw [hPieces] at ih
        rw [hMore, ← ih]
        cases more <;> rfl

/-- A character other than the separator stands in one of the pieces. -/
theorem mem_intercalate_iff {separator c : Char} (hNot : c ≠ separator)
    {pieces : List (List Char)} :
    c ∈ [separator].intercalate pieces ↔ ∃ piece ∈ pieces, c ∈ piece := by
  induction pieces with
  | nil => simp [List.intercalate]
  | cons piece more ih =>
      cases more with
      | nil => simp [List.intercalate]
      | cons next more =>
          rw [List.intercalate_cons_cons, List.mem_append, List.mem_append, ih]
          simp [hNot]

/-- A piece without the separator is cut off in front of it. -/
theorem splitAt_append {separator : Char} {piece : List Char} (hPiece : separator ∉ piece)
    (text : List Char) :
    splitAt separator (piece ++ separator :: text) = piece :: splitAt separator text := by
  induction piece with
  | nil => exact splitAt_self separator text
  | cons c piece ih =>
      rw [List.mem_cons, not_or] at hPiece
      obtain ⟨first, more, hPieces, hMore⟩ :=
        splitAt_cons (Ne.symm hPiece.1) (piece ++ separator :: text)
      rw [ih hPiece.2] at hPieces
      cases hPieces
      exact hMore

theorem splitAt_single {separator : Char} {piece : List Char} (hPiece : separator ∉ piece) :
    splitAt separator piece = [piece] := by
  induction piece with
  | nil => rfl
  | cons c piece ih =>
      rw [List.mem_cons, not_or] at hPiece
      obtain ⟨first, more, hPieces, hMore⟩ := splitAt_cons (Ne.symm hPiece.1) piece
      rw [ih hPiece.2] at hPieces
      cases hPieces
      exact hMore

/-- Pieces without the separator are those of the text that they make. -/
theorem splitAt_intercalate {separator : Char} {pieces : List (List Char)} (hSome : pieces ≠ [])
    (hPieces : ∀ piece ∈ pieces, separator ∉ piece) :
    splitAt separator ([separator].intercalate pieces) = pieces := by
  induction pieces with
  | nil => exact absurd rfl hSome
  | cons piece more ih =>
      have hPiece := hPieces piece List.mem_cons_self
      cases more with
      | nil =>
          have hSingle : [separator].intercalate [piece] = piece := by simp [List.intercalate]
          rw [hSingle, splitAt_single hPiece]
      | cons next more =>
          have hMore := ih (by simp) fun other hMem => hPieces other (List.mem_cons_of_mem _ hMem)
          calc splitAt separator ([separator].intercalate (piece :: next :: more))
              = splitAt separator
                  (piece ++ separator :: [separator].intercalate (next :: more)) := rfl
            _ = piece :: next :: more := by rw [splitAt_append hPiece, hMore]

/-- No piece has the separator. -/
theorem not_mem_splitAt (separator : Char) (text : List Char) :
    ∀ piece ∈ splitAt separator text, separator ∉ piece := by
  induction text with
  | nil => simp [splitAt]
  | cons c text ih =>
      by_cases hHere : c = separator
      · subst hHere
        rw [splitAt_self]
        simpa using ih
      · obtain ⟨piece, more, hPieces, hMore⟩ := splitAt_cons hHere text
        rw [hPieces] at ih
        rw [hMore]
        intro other hMem
        rcases List.mem_cons.mp hMem with rfl | hMem
        · rw [List.mem_cons, not_or]
          exact ⟨Ne.symm hHere, ih piece List.mem_cons_self⟩
        · exact ih other (List.mem_cons_of_mem _ hMem)

/-- A text falls apart at the first occurrence of the separator. -/
theorem splitOnce?_eq_some_iff {separator : Char} {text left right : List Char} :
    splitOnce? separator text = some (left, right) ↔
      text = left ++ separator :: right ∧ separator ∉ left := by
  induction text generalizing left with
  | nil => simp [splitOnce?]
  | cons c text ih =>
      unfold splitOnce?
      by_cases hHere : c = separator
      · subst hHere
        rw [if_pos rfl, Option.some.injEq, Prod.mk.injEq]
        constructor
        · rintro ⟨rfl, rfl⟩
          exact ⟨rfl, List.not_mem_nil⟩
        · rintro ⟨hText, hNot⟩
          cases left with
          | nil =>
              cases hText
              exact ⟨rfl, rfl⟩
          | cons d left =>
              cases hText
              exact absurd List.mem_cons_self hNot
      · rw [if_neg hHere, Option.map_eq_some_iff]
        constructor
        · rintro ⟨⟨left', right'⟩, hFound, hSplit⟩
          cases hSplit
          obtain ⟨rfl, hNot⟩ := ih.mp hFound
          refine ⟨rfl, ?_⟩
          rw [List.mem_cons, not_or]
          exact ⟨Ne.symm hHere, hNot⟩
        · rintro ⟨hText, hNot⟩
          cases left with
          | nil =>
              cases hText
              exact absurd rfl hHere
          | cons d left =>
              cases hText
              rw [List.mem_cons, not_or] at hNot
              exact ⟨(left, right), ih.mpr ⟨rfl, hNot.2⟩, rfl⟩

theorem dropLineBreak_break (text : List Char) : dropLineBreak ('\n' :: text) = text := rfl

/-- The marker is looked for at each place. -/
theorem before?_cons (marker : List Char) (c : Char) (rest : List Char) :
    before? marker (c :: rest) =
      if marker.isPrefixOf (c :: rest) then some [] else (before? marker rest).map (c :: ·) := rfl

/-- What is found stands before an occurrence of the marker. -/
theorem before?_some {marker text content : List Char} (h : before? marker text = some content) :
    content ++ marker <+: text := by
  induction text generalizing content with
  | nil =>
      unfold before? at h
      split at h
      · rename_i hPrefix
        cases h
        exact List.isPrefixOf_iff_prefix.mp hPrefix
      · cases h
  | cons c rest ih =>
      rw [before?_cons] at h
      split at h
      · rename_i hPrefix
        cases h
        exact List.isPrefixOf_iff_prefix.mp hPrefix
      · rw [Option.map_eq_some_iff] at h
        obtain ⟨content, hFound, rfl⟩ := h
        exact List.cons_prefix_cons.mpr ⟨rfl, ih hFound⟩

/-- What follows the first occurrence has no influence on what is found. -/
theorem before?_append {marker text content tail tail' : List Char}
    (h : before? marker (text ++ tail) = some content)
    (hLength : content.length + marker.length ≤ text.length) :
    before? marker (text ++ tail') = some content := by
  have hPrefix : ∀ {text : List Char}, marker.length ≤ text.length → ∀ tail,
      marker.isPrefixOf (text ++ tail) = marker.isPrefixOf text := by
    intro text hLe tail
    rw [Bool.eq_iff_iff, List.isPrefixOf_iff_prefix, List.isPrefixOf_iff_prefix]
    exact ⟨fun hMarker => List.prefix_of_prefix_length_le hMarker (List.prefix_append _ _) hLe,
      fun hMarker => hMarker.trans (List.prefix_append _ _)⟩
  induction text generalizing content with
  | nil =>
      obtain ⟨hContent, hMarker⟩ : content = [] ∧ marker = [] := by
        simpa using hLength
      subst hContent hMarker
      cases tail' <;> rfl
  | cons c rest ih =>
      rw [List.cons_append, before?_cons] at h ⊢
      by_cases hLe : marker.length ≤ (c :: rest).length
      · rw [← List.cons_append, hPrefix hLe] at h ⊢
        split at h
        · rename_i hFound
          rw [if_pos hFound]
          exact h
        · rename_i hNot
          rw [if_neg hNot]
          rw [Option.map_eq_some_iff] at h ⊢
          obtain ⟨content, hFound, rfl⟩ := h
          refine ⟨content, ih hFound ?_, rfl⟩
          simp only [List.length_cons] at hLength
          omega
      · omega

/-- A marker of one character is found where it first stands. -/
theorem before?_single_of_not_mem {c : Char} {content : List Char} (hNot : c ∉ content)
    (after : List Char) : before? [c] (content ++ c :: after) = some content := by
  induction content with
  | nil => rw [List.nil_append, before?_cons]; simp
  | cons d rest ih =>
      rw [List.mem_cons, not_or] at hNot
      rw [List.cons_append, before?_cons]
      have hHead : ¬ [c].isPrefixOf (d :: (rest ++ c :: after)) := by
        rw [List.isPrefixOf_iff_prefix, List.cons_prefix_cons]
        exact fun h => hNot.1 h.1
      rw [if_neg hHead, ih hNot.2]
      rfl

/-- Such a marker does not stand in the text in front of it. -/
theorem not_mem_of_before?_single {c : Char} {text content : List Char}
    (h : before? [c] text = some content) : c ∉ content := by
  induction text generalizing content with
  | nil => simp [before?] at h
  | cons d rest ih =>
      rw [before?_cons] at h
      split at h
      · cases h
        exact List.not_mem_nil
      · rename_i hHead
        rw [Option.map_eq_some_iff] at h
        obtain ⟨content, hFound, rfl⟩ := h
        rw [List.mem_cons, not_or]
        refine ⟨?_, ih hFound⟩
        rintro rfl
        exact hHead (by simp)

/-- The content that is found is the one before the first occurrence. -/
theorem before?_eq_some_iff {marker text content : List Char} :
    before? marker text = some content ↔
      content ++ marker <+: text ∧ ∀ k < content.length, ¬ marker <+: text.drop k := by
  induction text generalizing content with
  | nil =>
      unfold before?
      simp only [List.isPrefixOf_iff_prefix, List.prefix_nil, List.append_eq_nil_iff]
      by_cases hMarker : marker = []
      · rw [if_pos hMarker, Option.some.injEq]
        constructor
        · rintro rfl
          exact ⟨⟨rfl, hMarker⟩, fun k hk => absurd hk (Nat.not_lt_zero k)⟩
        · rintro ⟨⟨rfl, -⟩, -⟩
          rfl
      · rw [if_neg hMarker]
        constructor
        · exact fun h => nomatch h
        · rintro ⟨⟨-, hNil⟩, -⟩
          exact absurd hNil hMarker
  | cons c rest ih =>
      simp only [before?_cons, List.isPrefixOf_iff_prefix]
      by_cases hHere : marker <+: c :: rest
      · rw [if_pos hHere, Option.some.injEq]
        constructor
        · rintro rfl
          exact ⟨hHere, fun k hk => absurd hk (Nat.not_lt_zero k)⟩
        · rintro ⟨-, hFirst⟩
          cases content with
          | nil => rfl
          | cons d content => exact absurd hHere (hFirst 0 (Nat.succ_pos _))
      · rw [if_neg hHere, Option.map_eq_some_iff]
        constructor
        · rintro ⟨content, hFound, rfl⟩
          obtain ⟨hOccurs, hFirst⟩ := ih.mp hFound
          refine ⟨List.cons_prefix_cons.mpr ⟨rfl, hOccurs⟩, fun k hk => ?_⟩
          cases k with
          | zero => exact hHere
          | succ k => exact hFirst k (Nat.lt_of_succ_lt_succ hk)
        · rintro ⟨hOccurs, hFirst⟩
          cases content with
          | nil => exact absurd hOccurs hHere
          | cons d content =>
              obtain ⟨rfl, hMore⟩ := List.cons_prefix_cons.mp hOccurs
              exact ⟨content, ih.mpr ⟨hMore, fun k hk => hFirst (k + 1) (Nat.succ_lt_succ hk)⟩, rfl⟩

/-- A text that does not hold a character ends before it. -/
theorem prefix_of_not_mem {text before after : List Char} {c : Char}
    (h : text <+: before ++ c :: after) (hNot : c ∉ text) : text <+: before := by
  by_cases hLength : text.length ≤ before.length
  · exact List.prefix_of_prefix_length_le h (List.prefix_append _ _) hLength
  · have hLonger : before ++ [c] <+: before ++ c :: after := ⟨after, by simp⟩
    have hReaches : before ++ [c] <+: text := by
      refine List.prefix_of_prefix_length_le hLonger h ?_
      rw [List.length_append, List.length_singleton]
      omega
    exact absurd (hReaches.subset (by simp)) hNot

/-- A row that ends a text is found there, unless an earlier row starts like it. -/
theorem before?_row {row text : List Char} (hRow : '\n' ∉ row) (tail : List Char) :
    before? ('\n' :: row) (text ++ '\n' :: (row ++ tail)) = some text ↔
      ¬ '\n' :: row <:+: text := by
  rw [before?_eq_some_iff]
  constructor
  · rintro ⟨-, hFirst⟩ ⟨front, back, rfl⟩
    refine hFirst front.length ?_ ?_
    · simp only [List.length_append, List.length_cons]
      omega
    · rw [List.append_assoc, List.append_assoc, List.drop_left]
      exact List.prefix_append _ _
  · intro hNot
    refine ⟨?_, fun k hk hOccurs => hNot ?_⟩
    · rw [← List.cons_append, ← List.append_assoc]
      exact List.prefix_append _ _
    · rw [List.drop_append_of_le_length (Nat.le_of_lt hk)] at hOccurs
      cases hBehind : text.drop k with
      | nil => exact absurd (List.drop_eq_nil_iff.mp hBehind) (Nat.not_le.mpr hk)
      | cons c more =>
          rw [hBehind, List.cons_append, List.cons_prefix_cons] at hOccurs
          obtain ⟨rfl, hMore⟩ := hOccurs
          obtain ⟨back, rfl⟩ := prefix_of_not_mem hMore hRow
          refine ⟨text.take k, back, ?_⟩
          rw [List.append_assoc, List.cons_append, ← hBehind, List.take_append_drop]

end MacroMarkup.Text
