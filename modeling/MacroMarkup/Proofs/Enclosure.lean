import MacroMarkup.Proofs.Expand.Run
import MacroMarkup.Proofs.Reader
import MacroMarkup.Proofs.Text.Indent

/-! The text that an environment encloses. It is written behind the indentation of the
call, and read back without it if no row of it starts like the end tag. Rows that are
indented deeper never do, so an environment may enclose others of its name. -/
namespace MacroMarkup

namespace UserMacro

variable {user : UserMacro} (h : user.Proper)
include h

/-- No name has a line break in it. -/
theorem Proper.break_not_mem : '\n' ∉ user.name.toList := fun hMem => by
  have hBlank := (h.spelled _ hMem).1
  cases hBlank

theorem Proper.break_not_mem_open : '\n' ∉ (Spelling.openEnvironment user.name).toList := by
  rw [Spelling.openEnvironment, Spelling.braced]
  simpa [Spelling.environmentBegin, Spelling.scopeBegin, Spelling.scopeEnd] using h.break_not_mem

theorem Proper.break_not_mem_close : '\n' ∉ (Spelling.closeEnvironment user.name).toList := by
  rw [Spelling.closeEnvironment, Spelling.braced]
  simpa [Spelling.environmentEnd, Spelling.scopeBegin, Spelling.scopeEnd] using h.break_not_mem

end UserMacro

namespace Text

/-- Indentation hides no row that starts like a tag, and makes none. -/
theorem Indented.starts_iff {width : Nat} {text written : List Char}
    (h : Indented width text written) {tag : List Char} (hTag : tag ≠ []) :
    (∃ row ∈ rows written, List.replicate width ' ' ++ tag <+: row) ↔
      ∃ row ∈ rows text, tag <+: row := by
  unfold Indented at h
  generalize rows text = plain at h ⊢
  generalize rows written = indented at h ⊢
  induction h with
  | nil => simp
  | cons hRow _ ih =>
      rw [List.exists_mem_cons_iff, List.exists_mem_cons_iff, ih]
      refine or_congr_left ?_
      obtain rfl | ⟨rfl, rfl⟩ := hRow
      · exact List.prefix_append_right_inj _
      · simp [hTag]

end Text

namespace ExpandState

/-- A call does not change the row that it stands in. -/
theorem indent_entered {s : ExpandState} {key : List Char} (hRest : key <+: s.rest)
    (hBreak : '\n' ∉ key) :
    (s.entered key.length).document.reader.indent = s.document.reader.indent :=
  congrArg Text.indentOf (Reader.currentRow_advance hRest hBreak)

end ExpandState

namespace Expand

variable {env : Env} {block : BlockReader} {user : UserMacro} {s s' : ExpandState}

/-- The enclosed text ends at the first row that the end tag starts, under the call. -/
theorem outcome_environmentBody (name : String) (indent : Nat) {inner : List Char}
    (hRest : s.rest = '\n' :: inner) :
    outcome (environmentBody name indent) s =
      match Text.before? ('\n' :: (List.replicate indent ' ' ++
          (Spelling.closeEnvironment name).toList)) s.rest with
      | some captured =>
        (.ok (String.ofList (Text.stripIndent (Text.dropLineBreak captured) indent)),
          s.advance (captured.length + (blockEnd indent (Spelling.closeEnvironment name)).length))
      | none =>
        (.error (.error ((s.advance s.rest.length).document.error
          (.expectedEndMarker (Spelling.closeEnvironment name)))), s.advance s.rest.length) := by
  have hBreak : ['\n'] <+: s.rest := by
    rw [hRest]
    exact List.prefix_append ['\n'] inner
  unfold environmentBody
  rw [outcome_bind_of_ok (by rw [outcome_expectLineBreak, if_pos hBreak]), outcome_bind,
    outcome_readPast, toList_blockEnd]
  generalize Text.before? _ s.rest = found
  cases found with
  | none => rfl
  | some captured =>
      dsimp only
      rw [String.toList_ofList]
      rfl

/-- Text that is written under a call is read back, up to the end tag behind it, exactly if
no row of it starts like the end tag. -/
theorem environmentBody_written_iff {name : String} {indent : Nat} {body written tail : List Char}
    (hName : '\n' ∉ (Spelling.closeEnvironment name).toList)
    (hWritten : Text.Indented indent body written)
    (hRest : s.rest = '\n' :: (written ++
      '\n' :: (List.replicate indent ' ' ++ ((Spelling.closeEnvironment name).toList ++ tail)))) :
    (∃ count, outcome (environmentBody name indent) s =
        (.ok (String.ofList body), s.advance count) ∧ (s.advance count).rest = tail) ↔
      ∀ row ∈ Text.rows body, ¬ (Spelling.closeEnvironment name).toList <+: row := by
  have hMarker : (blockEnd indent (Spelling.closeEnvironment name)).toList = '\n' ::
      (List.replicate indent ' ' ++ (Spelling.closeEnvironment name).toList) := toList_blockEnd ..
  have hShape : s.rest = '\n' :: written ++
      (blockEnd indent (Spelling.closeEnvironment name)).toList ++ tail := by
    rw [hRest, hMarker]
    simp
  have hFound : Text.before? (blockEnd indent (Spelling.closeEnvironment name)).toList s.rest =
      some ('\n' :: written) ↔
        ∀ row ∈ Text.rows body, ¬ (Spelling.closeEnvironment name).toList <+: row := by
    have hRow : '\n' ∉ List.replicate indent ' ' ++ (Spelling.closeEnvironment name).toList := by
      simp [hName]
    have hTag : (Spelling.closeEnvironment name).toList ≠ [] := by
      simp [Spelling.closeEnvironment, Spelling.environmentEnd]
    rw [hShape, hMarker, List.append_assoc]
    refine (Text.before?_row hRow tail).trans ?_
    rw [Text.row_infix_iff hRow, hWritten.starts_iff hTag]
    simp only [not_exists, not_and]
  rw [← hFound, outcome_environmentBody name indent hRest, ← hMarker]
  constructor
  · rintro ⟨count, hRead, hTail⟩
    cases hCaptured : Text.before? (blockEnd indent (Spelling.closeEnvironment name)).toList
        s.rest with
    | none =>
        rw [hCaptured] at hRead
        cases hRead
    | some captured =>
        rw [hCaptured] at hRead
        dsimp only at hRead
        rw [Prod.mk.injEq] at hRead
        -- Both the text captured and the text written stand between the call and the same end.
        obtain ⟨after, hAfter⟩ := Text.before?_some hCaptured
        rw [← hRead.2, ExpandState.rest_behind hAfter.symm] at hTail
        rw [hTail, hShape] at hAfter
        rw [List.append_cancel_right (List.append_cancel_right hAfter)]
  · intro hCaptured
    rw [hCaptured]
    dsimp only
    rw [Text.dropLineBreak_break, hWritten.stripIndent_eq]
    exact ⟨_, rfl, ExpandState.rest_behind hShape⟩

/-- An environment reads its scopes, and then its body up to its end tag. -/
theorem outcome_callArgs_environment (user : UserMacro) (hKind : user.kind = .environment)
    (hFlags : user.signature.verbatim ≠ []) {scopes : List String}
    (hScopes : outcome (user.signature.verbatim.dropLast.mapM (argument env block)) s =
      (.ok scopes, s')) (indent : Nat) :
    outcome (callArgs env block user indent) s =
      match outcome (environmentBody user.name indent) s' with
      | (.ok body, last) => (.ok (⟨scopes, some body⟩, false), last)
      | (.error failure, last) => (.error failure, last) := by
  unfold callArgs arguments
  rw [List.isEmpty_eq_false_iff.mpr hFlags, if_neg (by decide), hKind, outcome_bind]
  dsimp only
  rw [outcome_bind_of_ok hScopes, outcome_bind]
  generalize outcome (environmentBody user.name indent) s' = result
  obtain ⟨_ | body, last⟩ := result <;> rfl

/-- The text is the only argument of an environment with a single parameter. -/
theorem callArgs_written_iff (hProper : user.Proper) (hKind : user.kind = .environment)
    (hSingle : user.signature.verbatim.length = 1) {body written tail : List Char}
    (hWritten : Text.Indented s.document.reader.indent body written)
    (hRest : s.rest = (Spelling.openEnvironment user.name).toList ++ '\n' :: (written ++
      '\n' :: (List.replicate s.document.reader.indent ' ' ++
        ((Spelling.closeEnvironment user.name).toList ++ tail)))) {length : Nat}
    (hLength : length = (Spelling.openEnvironment user.name).toList.length)
    (env : Env) (block : BlockReader) (engine : AutoBreak) :
    (∃ count, outcome (callArgs env block user (s.entered length).document.reader.indent)
        (s.calling length engine) =
          (.ok (⟨[], some (String.ofList body)⟩, false), (s.calling length engine).advance count) ∧
        ((s.calling length engine).advance count).rest = tail) ↔
      ∀ row ∈ Text.rows body, ¬ (Spelling.closeEnvironment user.name).toList <+: row := by
  subst hLength
  have hOpening : (Spelling.openEnvironment user.name).toList <+: s.rest := by
    rw [hRest]
    exact List.prefix_append _ _
  have hFlags : user.signature.verbatim ≠ [] := by
    rw [← List.length_pos_iff, hSingle]
    exact Nat.one_pos
  have hScopes : user.signature.verbatim.dropLast = [] := by
    rw [← List.length_eq_zero_iff, List.length_dropLast, hSingle]
  have hNone : outcome (user.signature.verbatim.dropLast.mapM (argument env block))
      (s.calling (Spelling.openEnvironment user.name).toList.length engine) =
        (.ok [], s.calling (Spelling.openEnvironment user.name).toList.length engine) := by
    rw [hScopes]
    rfl
  have hBehind : (s.calling (Spelling.openEnvironment user.name).toList.length engine).rest =
      _ := ExpandState.rest_entered hRest
  rw [ExpandState.indent_entered hOpening hProper.break_not_mem_open,
    outcome_callArgs_environment user hKind hFlags hNone,
    ← environmentBody_written_iff hProper.break_not_mem_close hWritten hBehind]
  refine exists_congr fun count => and_congr_left fun _ => ?_
  generalize outcome (environmentBody user.name _) _ = result
  obtain ⟨_ | value, last⟩ := result
  · simp
  · simp

/-- The text that an environment with a single parameter encloses is read back exactly. It
is written under the call, each row behind the indentation of the row that the call stands
in, with the end tag behind the same indentation in a row of its own. The environment is
found there. The text is its only argument, and reading goes on right behind the end tag,
exactly if no row of the text starts like the end tag. -/
theorem environment_read_back (hBuilt : s.session.registry.Built)
    (hBound : s.session.registry.bound (Spelling.openEnvironment user.name).toList =
      some (.user user))
    (hKind : user.kind = .environment) (hSingle : user.signature.verbatim.length = 1)
    {body written tail : List Char} (hWritten : Text.Indented s.document.reader.indent body written)
    (hRest : s.rest = (Spelling.openEnvironment user.name).toList ++ '\n' :: (written ++
      '\n' :: (List.replicate s.document.reader.indent ' ' ++
        ((Spelling.closeEnvironment user.name).toList ++ tail)))) :
    ∃ length, s.session.registry.lookup? s.rest = some (length, .user user) ∧
      ∀ (env : Env) (block : BlockReader) (engine : AutoBreak),
        (∃ count, outcome (callArgs env block user (s.entered length).document.reader.indent)
            (s.calling length engine) =
              (.ok (⟨[], some (String.ofList body)⟩, false), (s.calling length engine).advance count) ∧
            ((s.calling length engine).advance count).rest = tail) ↔
          ∀ row ∈ Text.rows body, ¬ (Spelling.closeEnvironment user.name).toList <+: row := by
  obtain ⟨-, hProper⟩ := hBuilt.sound.user _ user hBound
  refine ⟨(Spelling.openEnvironment user.name).toList.length, ?_,
    callArgs_written_iff hProper hKind hSingle hWritten hRest rfl⟩
  rw [hRest]
  exact hBuilt.lookup?_environment hBound _

def remark : UserMacro :=
  { kind := .environment
    name := "remark"
    signature := { verbatim := [true], mode := .normalize, policy := .wrapInParagraph }
    bodies := { raw := some { language := .raw, params := ["b"], code := "<#b>" } } }

/-- A call of it in an indented row. It encloses an empty row, and an environment of the same
name that is indented deeper. -/
def nestedRemarks : ExpandState :=
  ((behind "\\newenvironment\x7bremark: raw(*b)\x7d\x7b<#b>\x7d\n").withDocument
    (DocumentState.start "<string>" ""
      ("  \\begin\x7bremark\x7d\n  a\n\n    \\begin\x7bremark\x7d\n    b\n    \\end\x7bremark\x7d\n" ++
        "  \\end\x7bremark\x7d c") .normalize)).advance 2

theorem built_nestedRemarks : nestedRemarks.session.registry.Built := by
  have hSession (s : ExpandState) (document : DocumentState) :
      ((s.withDocument document).advance 2).session = s.session := rfl
  rw [nestedRemarks, hSession]
  exact built_behind _

theorem environment_read_back_nested : ∃ length count,
    nestedRemarks.session.registry.lookup? nestedRemarks.rest = some (length, .user remark) ∧
    outcome (callArgs plainEnv (blockReader plainEnv 9) remark
      (nestedRemarks.entered length).document.reader.indent)
      (nestedRemarks.calling length nestedRemarks.engine) =
        (.ok (⟨[], some "a\n\n  \\begin\x7bremark\x7d\n  b\n  \\end\x7bremark\x7d"⟩, false),
          (nestedRemarks.calling length nestedRemarks.engine).advance count) ∧
    ((nestedRemarks.calling length nestedRemarks.engine).advance count).rest = " c".toList := by
  have hBound : nestedRemarks.session.registry.bound
      (Spelling.openEnvironment remark.name).toList = some (.user remark) := by
    decide +kernel
  have hWritten : Text.Indented nestedRemarks.document.reader.indent
      "a\n\n  \\begin\x7bremark\x7d\n  b\n  \\end\x7bremark\x7d".toList
      "  a\n\n    \\begin\x7bremark\x7d\n    b\n    \\end\x7bremark\x7d".toList := by
    unfold Text.Indented
    decide +kernel
  have hRest : nestedRemarks.rest = (Spelling.openEnvironment remark.name).toList ++ '\n' ::
      ("  a\n\n    \\begin\x7bremark\x7d\n    b\n    \\end\x7bremark\x7d".toList ++
        '\n' :: (List.replicate nestedRemarks.document.reader.indent ' ' ++
          ((Spelling.closeEnvironment remark.name).toList ++ " c".toList))) := by
    decide +kernel
  obtain ⟨length, hFound, hArgs⟩ :=
    environment_read_back built_nestedRemarks hBound rfl rfl hWritten hRest
  obtain ⟨count, hRead, hTail⟩ := (hArgs plainEnv (blockReader plainEnv 9) nestedRemarks.engine).mpr
    (by decide +kernel)
  exact ⟨length, count, hFound, hRead, hTail⟩

end Expand

end MacroMarkup
