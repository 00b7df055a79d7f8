import MacroMarkup.FrontMatter
import MacroMarkup.Proofs.Text.Blank
import MacroMarkup.Proofs.Text.Rows
import Mathlib.Data.List.Forall2
import Mathlib.Data.List.TakeDrop
import Mathlib.Data.List.TakeWhile

/-! What becomes of each row of a document when its headers are taken out. The rows from
the opening fence to the closing one are left empty, and the headers are read from those
between them. All other rows keep their contents and their numbers, so that each position of
the text behind the headers is a position of the document. -/
namespace MacroMarkup

namespace Text

/-- A text is blank if its rows are. -/
theorem isAllBlank_ofRows (pieces : List (List Char)) :
    isAllBlank (ofRows pieces) = pieces.all isAllBlank := by
  unfold ofRows
  induction pieces with
  | nil => rfl
  | cons piece more ih =>
      cases more with
      | nil => simp
      | cons next more =>
          have hBreak : isAllBlank ['\n'] = true := by decide
          rw [List.intercalate_cons_cons, isAllBlank_append, isAllBlank_append, ih, hBreak,
            Bool.and_true]
          rfl

end Text

namespace FrontMatter

/-- Three or more dashes and nothing else. -/
def Fence (row : List Char) : Prop :=
  ∃ count, 3 ≤ count ∧ row = List.replicate count '-'

theorem isFence_iff {row : List Char} : isFence row = true ↔ Fence row := by
  unfold isFence Fence
  simp only [Bool.and_eq_true, decide_eq_true_eq, List.all_eq_true]
  constructor
  · rintro ⟨hLength, hDashes⟩
    exact ⟨row.length, hLength, List.eq_replicate_iff.mpr ⟨rfl, hDashes⟩⟩
  · rintro ⟨count, hCount, rfl⟩
    exact ⟨by rwa [List.length_replicate], fun c hMem => List.eq_of_mem_replicate hMem⟩

/-- A document that opens with a fence: only blank rows come before it. -/
def Opens (rows before behind : List (List Char)) : Prop :=
  (∀ row ∈ before, Text.isAllBlank row = true) ∧
    ∃ fence, Fence fence ∧ rows = before ++ fence :: behind

/-- Rows with a fence among them, the first of which stands behind the header. -/
def Closes (rows header after : List (List Char)) : Prop :=
  (∀ row ∈ header, ¬ Fence row) ∧ ∃ fence, Fence fence ∧ rows = header ++ fence :: after

/-- No fence is a blank row. -/
theorem Fence.not_blank {row : List Char} (h : Fence row) : Text.isAllBlank row = false := by
  obtain ⟨count, hCount, rfl⟩ := h
  obtain ⟨more, rfl⟩ := Nat.exists_eq_add_of_le' hCount
  rfl

variable {rows before behind header after : List (List Char)}

/-- The rows are cut where the first one comes that the predicate does not hold of. -/
theorem span_append {p : List Char → Bool} {row : List Char}
    (hBefore : ∀ other ∈ before, p other = true) (hRow : p row = false) : (before ++ row :: behind).span p = (before, row :: behind) := by
  rw [List.span_eq_takeWhile_dropWhile, List.takeWhile_append_of_pos hBefore,
    List.dropWhile_append_of_pos hBefore, List.takeWhile_cons, List.dropWhile_cons, hRow]
  simp

/-- Behind an opening fence the next fence is looked for. -/
theorem parts?_of_opens (h : Opens rows before behind) :
    parts? rows =
      match behind.span (!isFence ·) with
      | (_, []) => .error ()
      | (header, _ :: after) => .ok (some { before, header, after }) := by
  obtain ⟨hBefore, fence, hFence, rfl⟩ := h
  unfold parts?
  rw [span_append hBefore hFence.not_blank]
  dsimp only
  rw [if_pos (isFence_iff.mpr hFence)]
  rcases behind.span (!isFence ·) with ⟨header, _ | ⟨closing, after⟩⟩ <;> rfl

/-- Between two fences stands the header. -/
theorem parts?_of_closes (h : Opens rows before behind) (h' : Closes behind header after) :
    parts? rows = .ok (some { before, header, after }) := by
  obtain ⟨hHeader, fence, hFence, rfl⟩ := h'
  have hInner : ∀ row ∈ header, (!isFence row) = true := fun row hMem => by
    rw [Bool.not_eq_true', Bool.eq_false_iff, ne_eq, isFence_iff]
    exact hHeader row hMem
  rw [parts?_of_opens h, span_append hInner (by rw [isFence_iff.mpr hFence]; rfl)]

/-- An opening fence without a second one is an error. -/
theorem parts?_of_unclosed (h : Opens rows before behind) (hOpen : ∀ row ∈ behind, ¬ Fence row) :
    parts? rows = .error () := by
  have hInner : ∀ row ∈ behind, (!isFence row) = true := fun row hMem => by
    rw [Bool.not_eq_true', Bool.eq_false_iff, ne_eq, isFence_iff]
    exact hOpen row hMem
  rw [parts?_of_opens h, List.span_eq_takeWhile_dropWhile, List.dropWhile_eq_nil_iff.mpr hInner]

/-- A document without an opening fence has no parts. -/
theorem parts?_of_plain (h : ¬ ∃ before behind, Opens rows before behind) : parts? rows = .ok none := by
  unfold parts?
  cases hFirst : rows.find? (!Text.isAllBlank ·) with
  | none =>
      have hBlank : ∀ row ∈ rows, Text.isAllBlank row = true := by simpa using hFirst
      rw [List.span_eq_takeWhile_dropWhile, List.dropWhile_eq_nil_iff.mpr hBlank]
  | some row =>
      obtain ⟨hVisible, before, behind, rfl, hBefore⟩ := List.find?_eq_some_iff_append.mp hFirst
      simp only [Bool.not_not, Bool.not_eq_true'] at hVisible hBefore
      rw [span_append hBefore hVisible]
      exact if_neg fun hFence => h ⟨before, behind, hBefore, row, isFence_iff.mp hFence, rfl⟩

/-- A document that starts with an escape has no front matter. -/
theorem parts?_escape (text : List Char) : parts? (Text.rows ('\\' :: text)) = .ok none := by
  obtain ⟨row, more, -, hRows⟩ := Text.rows_cons (by decide : '\\' ≠ '\n') text
  have hBlank : Text.isAllBlank ('\\' :: row) = false := rfl
  have hFence : isFence ('\\' :: row) = false := by simp [isFence]
  unfold parts?
  rw [hRows, List.span_eq_takeWhile_dropWhile]
  simp [hBlank, hFence]

/-- Behind an opening fence some row is the first other fence, or none is one. -/
theorem closes_or_unclosed (behind : List (List Char)) :
    (∃ header after, Closes behind header after) ∨ ∀ row ∈ behind, ¬ Fence row := by
  simp only [← isFence_iff]
  cases hFirst : behind.find? isFence with
  | none => exact .inr (by simpa using hFirst)
  | some fence =>
      obtain ⟨hFence, header, after, rfl, hHeader⟩ := List.find?_eq_some_iff_append.mp hFirst
      refine .inl ⟨header, after, fun row hMem hOther => ?_, fence, isFence_iff.mp hFence, rfl⟩
      have hNot := hHeader row hMem
      rw [isFence_iff.mpr hOther] at hNot
      cases hNot

/-- As many rows, none of them longer. -/
def RowsLeft (left rows : List (List Char)) : Prop :=
  List.Forall₂ (fun left row : List Char => left.length ≤ row.length) left rows

theorem RowsLeft.refl (rows : List (List Char)) : RowsLeft rows rows :=
  List.forall₂_same.mpr fun row _ => Nat.le_refl row.length

/-- Rows may be emptied. -/
theorem RowsLeft.emptied (rows : List (List Char)) :
    RowsLeft (List.replicate rows.length []) rows := by
  induction rows with
  | nil => exact .nil
  | cons row rows ih => exact .cons (Nat.zero_le _) ih

/-! The outcome of the extraction. -/

section Outcome

variable {Headers : Type} [EmptyCollection Headers] (read : List Char → Except String Headers)
  {source : Source}

/-- Without front matter the text is kept as it is. -/
theorem extractWith_of_parts? (h : parts? (Text.rows source.text.toList) = .ok none) :
    extractWith read source = .ok (∅, source.text) := by
  unfold extractWith
  dsimp only
  rw [h]

/-- The error of an open header is reported in the last row. -/
theorem extractWith_of_unclosed (h : Opens (Text.rows source.text.toList) before behind)
    (hOpen : ∀ row ∈ behind, ¬ Fence row) :
    extractWith read source = .error
      { file := source.filename, path := source.path,
        row := (Text.rows source.text.toList).length - 1, col := 0, cause := .headerUnterminated } := by
  unfold extractWith
  dsimp only
  rw [parts?_of_unclosed h hOpen]

section Closes

variable (h : Opens (Text.rows source.text.toList) before behind) (h' : Closes behind header after)
include h h'

/-- A blank header holds no headers, and is not read. -/
theorem extractWith_of_blank (hBlank : header.all Text.isAllBlank = true) :
    extractWith read source = .ok (∅, String.ofList (Parts.body { before, header, after })) := by
  rw [← Text.isAllBlank_ofRows] at hBlank
  unfold extractWith
  dsimp only
  rw [parts?_of_closes h h']
  dsimp only
  rw [if_pos hBlank]

variable {read} (hVisible : ¬ header.all Text.isAllBlank = true)
include hVisible

/-- Headers that can be read are those of the document. -/
theorem extractWith_of_read {headers : Headers} (hRead : read (Text.ofRows header) = .ok headers) :
    extractWith read source = .ok (headers, String.ofList (Parts.body { before, header, after })) := by
  rw [← Text.isAllBlank_ofRows] at hVisible
  unfold extractWith
  dsimp only
  rw [parts?_of_closes h h']
  dsimp only
  rw [if_neg hVisible, hRead]

/-- Headers that cannot be read are an error in the row behind the fence. -/
theorem extractWith_of_unread {reason : String} (hRead : read (Text.ofRows header) = .error reason) :
    extractWith read source = .error
      { file := source.filename, path := source.path, row := before.length + 1, col := 0,
        cause := .headerParse reason } := by
  rw [← Text.isAllBlank_ofRows] at hVisible
  unfold extractWith
  dsimp only
  rw [parts?_of_closes h h']
  dsimp only
  rw [if_neg hVisible, hRead]

end Closes

/-- The rows of what is left: the fences and the header are empty. -/
theorem rows_body_of_closes {text : List Char} (h : Opens (Text.rows text) before behind)
    (h' : Closes behind header after) :
    Text.rows (Parts.body { before, header, after }) =
      before ++ List.replicate (header.length + 2) [] ++ after := by
  obtain ⟨-, opening, -, hRows⟩ := h
  obtain ⟨-, closing, -, rfl⟩ := h'
  have hText := Text.not_mem_rows text
  rw [hRows] at hText
  refine Text.rows_ofRows (by simp) fun row hMem => ?_
  simp only [List.mem_append, List.mem_replicate] at hMem
  rcases hMem with (hMem | ⟨-, rfl⟩) | hMem
  · exact hText row (by simp [hMem])
  · exact List.not_mem_nil
  · exact hText row (by simp [hMem])

/-- The headers of a document and what is left of its text. Without an opening fence that is
all of it. Otherwise the rows from that fence to the next are left empty, and those between
them are read, unless they are blank. -/
def Extraction (text : List Char) (headers : Headers) (left : List Char) : Prop :=
  (¬ (∃ before behind, Opens (Text.rows text) before behind) ∧ headers = ∅ ∧ left = text) ∨
    ∃ before behind header after, Opens (Text.rows text) before behind ∧
      Closes behind header after ∧
      Text.rows left = before ++ List.replicate (header.length + 2) [] ++ after ∧
      if header.all Text.isAllBlank then headers = ∅ else read (Text.ofRows header) = .ok headers

/-- Whatever an extraction may be, it is the result. -/
theorem extractWith_of_extraction {headers : Headers} {body : String}
    (h : Extraction read source.text.toList headers body.toList) :
    extractWith read source = .ok (headers, body) := by
  obtain ⟨hPlain, rfl, hLeft⟩ | ⟨before, behind, header, after, hOpens, hCloses, hRows, hRead⟩ := h
  · rw [extractWith_of_parts? read (parts?_of_plain hPlain), String.toList_injective hLeft]
  · have hBody : String.ofList (Parts.body { before, header, after }) = body := by
      rw [← Text.rows_injective (hRows.trans (rows_body_of_closes hOpens hCloses).symm),
        String.ofList_toList]
    split at hRead
    · rename_i hBlank
      rw [extractWith_of_blank read hOpens hCloses hBlank, hBody, hRead]
    · rename_i hVisible
      rw [extractWith_of_read hOpens hCloses hVisible hRead, hBody]

/-- No later fence closes the header, or it closes and is not read, or there is an
extraction. -/
theorem extractWith_cases (read : List Char → Except String Headers) (source : Source) :
    ((∃ before behind, Opens (Text.rows source.text.toList) before behind ∧
        ∀ row ∈ behind, ¬ Fence row) ∧
      extractWith read source = .error
        { file := source.filename, path := source.path,
          row := (Text.rows source.text.toList).length - 1, col := 0,
          cause := .headerUnterminated }) ∨
    (∃ before behind header after reason, Opens (Text.rows source.text.toList) before behind ∧
      Closes behind header after ∧ extractWith read source = .error
        { file := source.filename, path := source.path, row := before.length + 1, col := 0,
          cause := .headerParse reason }) ∨
    ∃ headers body, extractWith read source = .ok (headers, body) ∧
      Extraction read source.text.toList headers body.toList := by
  by_cases hPlain : ∃ before behind, Opens (Text.rows source.text.toList) before behind
  · obtain ⟨before, behind, hOpens⟩ := hPlain
    obtain ⟨header, after, hCloses⟩ | hUnclosed := closes_or_unclosed behind
    · have hRows := rows_body_of_closes hOpens hCloses
      by_cases hBlank : header.all Text.isAllBlank = true
      · refine .inr (.inr ⟨_, _, extractWith_of_blank read hOpens hCloses hBlank,
          .inr ⟨before, behind, header, after, hOpens, hCloses, ?_⟩⟩)
        rw [String.toList_ofList, if_pos hBlank]
        exact ⟨hRows, rfl⟩
      · cases hRead : read (Text.ofRows header) with
        | error reason =>
            exact .inr (.inl ⟨before, behind, header, after, reason, hOpens, hCloses,
              extractWith_of_unread hOpens hCloses hBlank hRead⟩)
        | ok headers =>
            refine .inr (.inr ⟨_, _, extractWith_of_read hOpens hCloses hBlank hRead,
              .inr ⟨before, behind, header, after, hOpens, hCloses, ?_⟩⟩)
            rw [String.toList_ofList, if_neg hBlank]
            exact ⟨hRows, hRead⟩
    · exact .inl ⟨⟨before, behind, hOpens, hUnclosed⟩,
        extractWith_of_unclosed read hOpens hUnclosed⟩
  · exact .inr (.inr ⟨_, _, extractWith_of_parts? read (parts?_of_plain hPlain), .inl ⟨hPlain, rfl, rfl⟩⟩)

variable {read}

/-- Every result is an extraction. -/
theorem extraction_of_ok {headers : Headers} {body : String}
    (h : extractWith read source = .ok (headers, body)) :
    Extraction read source.text.toList headers body.toList := by
  obtain ⟨-, hError⟩ | ⟨_, _, _, _, _, -, -, hError⟩ | ⟨headers', body', hBody, hOut⟩ :=
    extractWith_cases read source
  · cases h.symm.trans hError
  · cases h.symm.trans hError
  · cases h.symm.trans hBody
    exact hOut

/-- The rows of what is left of a document: those of the document, some of them empty. -/
theorem Extraction.rowsLeft {text left : List Char} {headers : Headers}
    (h : Extraction read text headers left) : RowsLeft (Text.rows left) (Text.rows text) := by
  obtain ⟨-, -, rfl⟩ | ⟨before, behind, header, after, ⟨-, opening, -, hRows⟩,
    ⟨-, closing, -, rfl⟩, hLeft, -⟩ := h
  · exact .refl _
  · have hHeader := RowsLeft.emptied (opening :: (header ++ [closing]))
    have hLength : (opening :: (header ++ [closing])).length = header.length + 2 := by simp
    have hSplit : before ++ opening :: (header ++ closing :: after) =
        before ++ opening :: (header ++ [closing]) ++ after := by simp
    rw [hLength] at hHeader
    rw [hLeft, hRows, hSplit]
    exact List.rel_append (List.rel_append (RowsLeft.refl before) hHeader) (RowsLeft.refl after)

/-- Behind the closing fence each position has the rest that it had in the document. -/
theorem Extraction.restAt_iff {text left : List Char} {headers : Headers}
    (h : Extraction read text headers left) (hOpens : Opens (Text.rows text) before behind)
    (hCloses : Closes behind header after) {row col : Nat} {rest : List Char}
    (hRow : before.length + 1 + header.length < row) :
    Text.RestAt text row col rest ↔ Text.RestAt left row col rest := by
  obtain ⟨hPlain, -⟩ | ⟨before', behind', header', after', hOpens', hCloses', hLeft, -⟩ := h
  · exact absurd ⟨before, behind, hOpens⟩ hPlain
  · cases (parts?_of_closes hOpens hCloses).symm.trans (parts?_of_closes hOpens' hCloses')
    obtain ⟨-, opening, -, hRows⟩ := hOpens
    obtain ⟨-, closing, -, rfl⟩ := hCloses
    have hText : Text.rows text = before ++ opening :: (header ++ [closing]) ++ after := by
      rw [hRows]
      simp
    refine Text.restAt_behind hText hLeft (by simp) ?_
    simp only [List.length_append, List.length_cons, List.length_nil]
    omega

/-- The extraction of headers lacks a closing fence exactly where only an opening one stands
in the document. If it succeeds it takes out the rows of the header and leaves each later
position in its place. -/
theorem headers_extracted (read : List Char → Except String Headers) (source : Source) :
    ((∃ error, extractWith read source = .error error ∧ error.cause = .headerUnterminated) ↔
      ∃ before behind, Opens (Text.rows source.text.toList) before behind ∧
        ∀ row ∈ behind, ¬ Fence row) ∧
    ∀ headers body,
      (extractWith read source = .ok (headers, body) ↔
        Extraction read source.text.toList headers body.toList) ∧
      (extractWith read source = .ok (headers, body) →
        (Text.rows body.toList).length = (Text.rows source.text.toList).length ∧
        ∀ before behind header after, Opens (Text.rows source.text.toList) before behind →
          Closes behind header after → ∀ row col rest, before.length + 1 + header.length < row →
            (Text.RestAt source.text.toList row col rest ↔ Text.RestAt body.toList row col rest)) := by
  refine ⟨⟨?_, ?_⟩, fun headers body =>
    ⟨⟨extraction_of_ok, extractWith_of_extraction read⟩, fun h => ?_⟩⟩
  · rintro ⟨error, hError, hCause⟩
    obtain ⟨hUnclosed, -⟩ | ⟨_, _, _, _, _, -, -, hError'⟩ | ⟨headers, body, hBody, -⟩ :=
      extractWith_cases read source
    · exact hUnclosed
    · cases hError.symm.trans hError'
      cases hCause
    · cases hError.symm.trans hBody
  · rintro ⟨before, behind, hOpens, hUnclosed⟩
    exact ⟨_, extractWith_of_unclosed read hOpens hUnclosed, rfl⟩
  · have hOut := extraction_of_ok h
    exact ⟨hOut.rowsLeft.length_eq, fun before behind header after hOpens hCloses row col rest hRow =>
      hOut.restAt_iff hOpens hCloses hRow⟩

/-- A position of the text behind the headers is a position of the document. -/
theorem hasPosition_of_extractWith {headers : Headers} {body : String}
    (h : extractWith read source = .ok (headers, body)) {row col : Nat}
    (hPosition : Text.HasPosition body.toList row col) :
    Text.HasPosition source.text.toList row col := by
  rw [Text.hasPosition_iff] at hPosition
  obtain ⟨left, hLeft, hCol⟩ := hPosition
  have hRows := (extraction_of_ok h).rowsLeft
  have hRange := (List.getElem?_eq_some_iff.mp hLeft).1
  have hShorter := hRows.get hRange (hRows.length_eq ▸ hRange)
  have hHere := (List.getElem?_eq_some_iff.mp hLeft).2
  rw [List.get_eq_getElem, List.get_eq_getElem, hHere] at hShorter
  exact Text.hasPosition_iff.mpr
    ⟨_, List.getElem?_eq_getElem (hRows.length_eq ▸ hRange), Nat.le_trans hCol hShorter⟩

/-- An error of the headers is at a position of the document. -/
theorem hasPosition_of_error {error : LocatedError} (h : extractWith read source = .error error) :
    error.file = source.filename ∧ error.path = source.path ∧
      Text.HasPosition source.text.toList error.row error.col := by
  have hStart : ∀ {row : Nat}, row < (Text.rows source.text.toList).length →
      Text.HasPosition source.text.toList row 0 := fun hRow =>
    Text.hasPosition_iff.mpr ⟨_, List.getElem?_eq_getElem hRow, Nat.zero_le _⟩
  obtain ⟨-, hError⟩ | ⟨before, _, header, after, _, ⟨-, _, -, hRows⟩, ⟨-, _, -, rfl⟩, hError⟩ |
    ⟨headers, body, hBody, -⟩ := extractWith_cases read source
  · cases h.symm.trans hError
    have hSome := List.length_pos_iff.mpr (Text.splitAt_ne_nil '\n' source.text.toList)
    exact ⟨rfl, rfl, hStart (Nat.sub_lt hSome Nat.one_pos)⟩
  · cases h.symm.trans hError
    refine ⟨rfl, rfl, hStart ?_⟩
    rw [hRows]
    simp only [List.length_append, List.length_cons]
    omega
  · cases h.symm.trans hBody

end Outcome

theorem extract_of_parts? {source : Source} (h : parts? (Text.rows source.text.toList) = .ok none) :
    extract source = .ok (∅, source.text) :=
  extractWith_of_parts? _ h

/-- A note with a header that has a blank row in front of it, and fences of two lengths. -/
def titled : Source :=
  Source.ofText "\n----\ntitle: Notes\n---\nFirst.\n---"

theorem headers_extracted_titled :
    extractWith .ok titled = .ok ("title: Notes".toList, "\n\n\n\nFirst.\n---") ∧
      ∀ col rest, Text.RestAt titled.text.toList 4 col rest ↔
        Text.RestAt "\n\n\n\nFirst.\n---".toList 4 col rest := by
  have hOpens : Opens (Text.rows titled.text.toList) [[]]
      ["title: Notes".toList, "---".toList, "First.".toList, "---".toList] :=
    ⟨by decide, "----".toList, ⟨4, by decide⟩, by decide⟩
  have hCloses : Closes ["title: Notes".toList, "---".toList, "First.".toList, "---".toList]
      ["title: Notes".toList] ["First.".toList, "---".toList] := by
    refine ⟨fun row hMem hFence => ?_, "---".toList, ⟨3, by decide⟩, rfl⟩
    rw [← isFence_iff, List.mem_singleton.mp hMem] at hFence
    exact absurd hFence (by decide)
  obtain ⟨hOut, hPlaces⟩ := (headers_extracted (.ok : List Char → Except String (List Char)) titled).2
    "title: Notes".toList "\n\n\n\nFirst.\n---"
  have hDone := hOut.mpr (.inr ⟨_, _, _, _, hOpens, hCloses, by decide, by decide⟩)
  exact ⟨hDone, fun col rest => (hPlaces hDone).2 _ _ _ _ hOpens hCloses 4 col rest (by decide)⟩

end FrontMatter

end MacroMarkup
