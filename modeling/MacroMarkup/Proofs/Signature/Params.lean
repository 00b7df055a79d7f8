import MacroMarkup.Proofs.Text.Blank
import MacroMarkup.Signature
import Mathlib.Data.List.Forall2

/-! The parameters of a macro, as signatures are written. A text is read as parameters exactly
if it is one of the ways to write them. -/
namespace MacroMarkup

/-- A name that a parameter can have: trimmed, and without the characters that signatures
are written with. -/
structure Param.Proper (param : Param) : Prop where
  named : param.name.toList ≠ []
  trimmed : Text.trim param.name.toList = param.name.toList
  allowed : ∀ c ∈ param.name.toList, c ∉ Declaration.forbiddenInParams

/-- A parameter is written as its name, behind a star if its argument is verbatim. Blanks
may stand around both. -/
inductive Param.Written : Param → List Char → Prop where
  | expanded {name : String} {before after : List Char} (hBefore : Text.isAllBlank before = true)
      (hAfter : Text.isAllBlank after = true) :
      Param.Written { name, verbatim := false } (before ++ name.toList ++ after)
  | verbatim {name : String} {before between after : List Char}
      (hBefore : Text.isAllBlank before = true) (hBetween : Text.isAllBlank between = true)
      (hAfter : Text.isAllBlank after = true) :
      Param.Written { name, verbatim := true }
        (before ++ '*' :: (between ++ name.toList) ++ after)

/-- A proper name has a visible character. -/
theorem Param.Proper.visible {param : Param} (hProper : param.Proper) :
    ∃ c ∈ param.name.toList, Text.isBlank c = false := by
  obtain ⟨hHead, -⟩ := Text.trim_eq_self_iff.mp hProper.trimmed
  cases hName : param.name.toList with
  | nil => exact absurd hName hProper.named
  | cons c name =>
      rw [hName] at hHead
      exact ⟨c, List.mem_cons_self, hHead c rfl⟩

namespace Param.Written

/-- A written parameter consists of its name, a star and blanks. -/
theorem mem {param : Param} {text : List Char} (hWritten : param.Written text) :
    ∀ c ∈ text, Text.isBlank c = true ∨ c = '*' ∨ c ∈ param.name.toList := by
  intro c hMem
  cases hWritten with
  | expanded hBefore hAfter =>
      simp only [List.mem_append] at hMem
      rcases hMem with (hMem | hMem) | hMem
      · exact .inl (List.all_eq_true.mp hBefore c hMem)
      · exact .inr (.inr hMem)
      · exact .inl (List.all_eq_true.mp hAfter c hMem)
  | verbatim hBefore hBetween hAfter =>
      simp only [List.mem_append, List.mem_cons] at hMem
      rcases hMem with (hMem | rfl | hMem | hMem) | hMem
      · exact .inl (List.all_eq_true.mp hBefore c hMem)
      · exact .inr (.inl rfl)
      · exact .inl (List.all_eq_true.mp hBetween c hMem)
      · exact .inr (.inr hMem)
      · exact .inl (List.all_eq_true.mp hAfter c hMem)

theorem name_subset {param : Param} {text : List Char} (hWritten : param.Written text) :
    param.name.toList ⊆ text := by
  intro c hMem
  cases hWritten with
  | expanded => simp [show c ∈ _ from hMem]
  | verbatim => simp [show c ∈ _ from hMem]

/-- Of the characters that no name holds, a written parameter holds blanks and the star only. -/
theorem not_mem {param : Param} {text : List Char} (hWritten : param.Written text)
    (hProper : param.Proper) {c : Char} (hForbidden : c ∈ Declaration.forbiddenInParams)
    (hVisible : Text.isBlank c = false) (hStar : c ≠ '*') : c ∉ text := by
  intro hMem
  rcases hWritten.mem c hMem with hBlank | hHere | hName
  · rw [hVisible] at hBlank
    cases hBlank
  · exact hStar hHere
  · exact hProper.allowed c hName hForbidden

end Param.Written

/-- Parameters are written with commas between them. Where there are none, blanks may stand. -/
inductive Param.AllWritten : List Param → List Char → Prop where
  | none {blanks : List Char} (hBlanks : Text.isAllBlank blanks = true) :
      Param.AllWritten [] blanks
  | some {params : List Param} {pieces : List (List Char)} (hSome : params ≠ [])
      (hPieces : List.Forall₂ Param.Written params pieces) :
      Param.AllWritten params ([','].intercalate pieces)

/-- Forbidden characters stand in no written parameter. -/
theorem Param.not_mem_pieces {params : List Param} {pieces : List (List Char)}
    (hPieces : List.Forall₂ Param.Written params pieces)
    (hProper : ∀ param ∈ params, param.Proper) {c : Char}
    (hForbidden : c ∈ Declaration.forbiddenInParams) (hVisible : Text.isBlank c = false)
    (hStar : c ≠ '*') : ∀ piece ∈ pieces, c ∉ piece := by
  induction hPieces with
  | nil => exact List.forall_mem_nil _
  | cons hPiece hMore ih =>
      rw [List.forall_mem_cons] at hProper ⊢
      exact ⟨hPiece.not_mem hProper.1 hForbidden hVisible hStar, ih hProper.2⟩

namespace Param.AllWritten

theorem not_mem {params : List Param} {text : List Char}
    (hWritten : Param.AllWritten params text) (hProper : ∀ param ∈ params, param.Proper) {c : Char}
    (hForbidden : c ∈ Declaration.forbiddenInParams) (hVisible : Text.isBlank c = false)
    (hStar : c ≠ '*') (hComma : c ≠ ',') : c ∉ text := by
  cases hWritten with
  | none hBlanks => exact Text.not_mem_of_isAllBlank hBlanks hVisible
  | some hSome hPieces =>
      rw [Text.mem_intercalate_iff hComma]
      rintro ⟨piece, hPiece, hMem⟩
      exact Param.not_mem_pieces hPieces hProper hForbidden hVisible hStar piece hPiece hMem

/-- Where there are parameters, something is to be seen of them. -/
theorem nil_of_blank {params : List Param} {text : List Char}
    (hWritten : Param.AllWritten params text) (hProper : ∀ param ∈ params, param.Proper)
    (hBlank : Text.isAllBlank text = true) : params = [] := by
  cases hWritten with
  | none => rfl
  | some hSome hPieces =>
      cases hPieces with
      | nil => rfl
      | @cons param piece params pieces hPiece hMore =>
          obtain ⟨c, hName, hVisible⟩ := (hProper param List.mem_cons_self).visible
          have hComma : c ≠ ',' := by
            rintro rfl
            exact (hProper param List.mem_cons_self).allowed ',' hName (by decide)
          have hMem : c ∈ [','].intercalate (piece :: pieces) :=
            (Text.mem_intercalate_iff hComma).mpr
              ⟨piece, List.mem_cons_self, hPiece.name_subset hName⟩
          exact absurd hMem (Text.not_mem_of_isAllBlank hBlank hVisible)

end Param.AllWritten

namespace Declaration

/-- A parameter that is found to be named `name` is taken if the name can be one. -/
theorem takeName_eq_ok_iff {name : List Char} (hTrimmed : Text.trim name = name)
    {verbatim : Bool} {param : Param} {cause : ErrorCause} :
    (if name.isEmpty ∨ name.any forbiddenInParams.contains then Except.error cause
      else .ok { name := String.ofList name, verbatim }) = Except.ok param ↔
      param.Proper ∧ param.name.toList = name ∧ param.verbatim = verbatim := by
  have hBad : (name.isEmpty = true ∨ name.any forbiddenInParams.contains = true) ↔
      ¬ (name ≠ [] ∧ ∀ c ∈ name, c ∉ forbiddenInParams) := by
    rw [not_and_or, List.isEmpty_iff, List.any_eq_true]
    simp
  constructor
  · intro h
    split at h
    · cases h
    · rename_i hName
      rw [hBad, not_not] at hName
      cases h
      have hList : (String.ofList name).toList = name := String.toList_ofList
      refine ⟨⟨?_, ?_, ?_⟩, hList, rfl⟩
      · simpa only [hList] using hName.1
      · simpa only [hList] using hTrimmed
      · simpa only [hList] using hName.2
  · rintro ⟨hProper, rfl, rfl⟩
    rw [if_neg, String.ofList_toList]
    rw [hBad, not_not]
    exact ⟨hProper.named, hProper.allowed⟩

/-- Behind a star stands the name of a verbatim parameter. -/
theorem parseParam_star {text rest : List Char} (hStar : Text.trim text = '*' :: rest)
    {param : Param} : parseParam text = .ok param ↔
      param.Proper ∧ param.name.toList = Text.trim rest ∧ param.verbatim = true := by
  unfold parseParam
  rw [hStar]
  exact takeName_eq_ok_iff (Text.trim_trim rest)

/-- Without a star the parameter is parsed. -/
theorem parseParam_plain {text : List Char} (hPlain : ∀ rest, Text.trim text ≠ '*' :: rest)
    {param : Param} : parseParam text = .ok param ↔
      param.Proper ∧ param.name.toList = Text.trim text ∧ param.verbatim = false := by
  unfold parseParam
  dsimp only
  split
  · rename_i hStar
    exact absurd hStar (hPlain _)
  · exact takeName_eq_ok_iff (Text.trim_trim text)

/-- Parameters are read exactly from the texts they are written as. -/
theorem parseParam_eq_ok_iff {text : List Char} {param : Param} :
    parseParam text = .ok param ↔ param.Proper ∧ param.Written text := by
  constructor
  · intro h
    obtain ⟨before, after, hBefore, hAfter, hText⟩ := Text.trim_surroundings text
    by_cases hStar : ∃ rest, Text.trim text = '*' :: rest
    · obtain ⟨rest, hStar⟩ := hStar
      obtain ⟨between, behind, hBetween, hBehind, hRest⟩ := Text.trim_surroundings rest
      obtain ⟨hProper, hName, hVerbatim⟩ := (parseParam_star hStar).mp h
      obtain ⟨name, verbatim⟩ := param
      cases hVerbatim
      have hWhole : text = before ++ '*' :: (between ++ name.toList) ++ (behind ++ after) := by
        rw [hText, hStar, hRest, ← hName]
        simp
      refine ⟨hProper, hWhole ▸ .verbatim hBefore hBetween ?_⟩
      rw [Text.isAllBlank_append, hBehind, hAfter]
      rfl
    · obtain ⟨hProper, hName, hVerbatim⟩ := (parseParam_plain (not_exists.mp hStar)).mp h
      obtain ⟨name, verbatim⟩ := param
      cases hVerbatim
      refine ⟨hProper, ?_⟩
      rw [hText, ← hName]
      exact .expanded hBefore hAfter
  · rintro ⟨hProper, hWritten⟩
    cases hWritten with
    | expanded hBefore hAfter =>
        have hTrim := Text.trim_between hBefore hAfter hProper.trimmed
        refine (parseParam_plain fun rest hStar => ?_).mpr ⟨hProper, hTrim.symm, rfl⟩
        refine hProper.allowed '*' ?_ (by decide)
        rw [← hTrim, hStar]
        exact List.mem_cons_self
    | @verbatim name before between after hBefore hBetween hAfter =>
        have hMarked : Text.trim ('*' :: (between ++ name.toList)) =
            '*' :: (between ++ name.toList) :=
          Text.trim_marked rfl between hProper.named hProper.trimmed
        have hTrim := Text.trim_between hBefore hAfter hMarked
        refine (parseParam_star hTrim).mpr ⟨hProper, ?_, rfl⟩
        have hName : Text.trim (between ++ name.toList ++ []) = name.toList :=
          Text.trim_between hBetween rfl hProper.trimmed
        rw [List.append_nil] at hName
        exact hName.symm

/-- Pieces are read as the parameters that they write. -/
theorem mapM_parseParam_eq_ok_iff {pieces : List (List Char)} {params : List Param} :
    pieces.mapM parseParam = .ok params ↔
      (∀ param ∈ params, param.Proper) ∧ List.Forall₂ Param.Written params pieces := by
  induction pieces generalizing params with
  | nil =>
      rw [List.mapM_nil, List.forall₂_nil_right_iff]
      constructor
      · intro h
        cases h
        exact ⟨List.forall_mem_nil _, rfl⟩
      · rintro ⟨-, rfl⟩
        rfl
  | cons piece pieces ih =>
      rw [List.mapM_cons, List.forall₂_cons_right_iff]
      constructor
      · intro h
        cases hPiece : parseParam piece with
        | error cause =>
            rw [hPiece] at h
            cases h
        | ok param =>
            cases hMore : pieces.mapM parseParam with
            | error cause =>
                rw [hPiece, hMore] at h
                cases h
            | ok more =>
                rw [hPiece, hMore] at h
                cases h
                obtain ⟨hProper, hWritten⟩ := parseParam_eq_ok_iff.mp hPiece
                obtain ⟨hAll, hPieces⟩ := ih.mp hMore
                exact ⟨List.forall_mem_cons.mpr ⟨hProper, hAll⟩, param, more, hWritten, hPieces, rfl⟩
      · rintro ⟨hProper, param, more, hWritten, hPieces, rfl⟩
        rw [List.forall_mem_cons] at hProper
        rw [parseParam_eq_ok_iff.mpr ⟨hProper.1, hWritten⟩, ih.mpr ⟨hProper.2, hPieces⟩]
        rfl

/-- Parameters are read between their parentheses exactly from the texts they are written as. -/
theorem parseParams_eq_ok_iff {language language' : Language} {params : List Param}
    {inner : List Char} :
    (if Text.isAllBlank inner then .ok (some (language, []))
      else do
        let params ← (Text.splitAt ',' inner).mapM parseParam
        return some (language, params) : Except ErrorCause (Option (Language × List Param))) =
        .ok (some (language', params)) ↔
      language = language' ∧ (∀ param ∈ params, param.Proper) ∧ Param.AllWritten params inner := by
  constructor
  · intro h
    split at h
    · rename_i hBlank
      cases h
      exact ⟨rfl, List.forall_mem_nil _, .none hBlank⟩
    · cases hParams : (Text.splitAt ',' inner).mapM parseParam with
      | error cause =>
          rw [hParams] at h
          cases h
      | ok read =>
          rw [hParams] at h
          cases h
          obtain ⟨hProper, hPieces⟩ := mapM_parseParam_eq_ok_iff.mp hParams
          refine ⟨rfl, hProper, ?_⟩
          rw [← Text.intercalate_splitAt ',' inner]
          refine .some ?_ hPieces
          rintro rfl
          exact Text.splitAt_ne_nil ',' inner (List.forall₂_nil_left_iff.mp hPieces)
  · rintro ⟨rfl, hProper, hWritten⟩
    cases hWritten with
    | none hBlanks => rw [if_pos hBlanks]
    | @some _ pieces hSome hPieces =>
        have hApart : Text.splitAt ',' ([','].intercalate pieces) = pieces := by
          refine Text.splitAt_intercalate ?_
            (Param.not_mem_pieces hPieces hProper (by decide) rfl (by decide))
          rintro rfl
          exact hSome (List.forall₂_nil_right_iff.mp hPieces)
        rw [if_neg fun hBlank => hSome ((Param.AllWritten.some hSome hPieces).nil_of_blank hProper hBlank),
          hApart, mapM_parseParam_eq_ok_iff.mpr ⟨hProper, hPieces⟩]
        rfl

end Declaration

end MacroMarkup
