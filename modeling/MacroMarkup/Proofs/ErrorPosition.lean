import MacroMarkup.Proofs.Expand.Law
import MacroMarkup.Proofs.FrontMatter
import MacroMarkup.Proofs.Expand.Growth

/-! Where the errors of a compilation are reported. An error names a position of the
document that was being read, or it comes from a library. The text that the last pass
reads is the normalized one. -/
namespace MacroMarkup

namespace Expand

/-- A later place in the same document. -/
structure Along (s s' : ExpandState) : Prop where
  read : ∃ text, s.rest = text ++ s'.rest ∧
    s'.document.reader.cursor = s.document.reader.cursor.advance text
  file : s'.document.file = s.document.file
  path : s'.document.path = s.document.path

/-- A step that reads nothing goes along. -/
theorem Along.same {s s' : ExpandState} (hReader : s'.document.reader = s.document.reader)
    (hFile : s'.document.file = s.document.file) (hPath : s'.document.path = s.document.path) :
    Along s s' := by
  refine ⟨⟨[], ?_, ?_⟩, hFile, hPath⟩
  · change s.document.reader.rest = [] ++ s'.document.reader.rest
    rw [hReader, List.nil_append]
  · rw [hReader]
    rfl

theorem Along.trans {s₁ s₂ s₃ : ExpandState} (h : Along s₁ s₂) (h' : Along s₂ s₃) : Along s₁ s₃ := by
  obtain ⟨text, hRest, hCursor⟩ := h.read
  obtain ⟨text', hRest', hCursor'⟩ := h'.read
  refine ⟨⟨text ++ text', ?_, ?_⟩, h'.file.trans h.file, h'.path.trans h.path⟩
  · rw [hRest, hRest', List.append_assoc]
  · rw [hCursor', hCursor, Cursor.advance_append]

/-- The names are those of a library. -/
def InLibrary (known : Source → Prop) (error : LocatedError) : Prop :=
  ∃ source, known source ∧ error.file = source.filename ∧ error.path = source.path

/-- An error is at the place that was reached in the document, or in a library. -/
def Blamed (known : Source → Prop) (failure : Failure) (s s' : ExpandState) : Prop :=
  ∀ error, failure = .error error →
    (Along s s' ∧ error = s'.document.error error.cause) ∨ InLibrary known error

/-- Whom an inner run blames is blamed by the run around it. -/
theorem Blamed.outer {known : Source → Prop} {failure : Failure} {s₁ s₂ s₃ s₄ : ExpandState}
    (h : Blamed known failure s₂ s₃) (hAlong : Along s₂ s₃ → Along s₁ s₄)
    (hError : ∀ cause, s₃.document.error cause = s₄.document.error cause) :
    Blamed known failure s₁ s₄ := by
  intro error hFailure
  rcases h error hFailure with ⟨hInner, hPlace⟩ | hLibrary
  · exact .inl ⟨hAlong hInner, hPlace.trans (hError _)⟩
  · exact .inr hLibrary

/-- Every error is reported at a place of a source that the run knows. -/
theorem along (known : Source → Prop) : FailureLaw known Along (Blamed known) where
  refl _ := .same rfl rfl rfl
  trans := Along.trans
  failing cause s s' h error hError := by
    cases hError
    exact .inl ⟨h, rfl⟩
  exhausted _ error hError := by cases hError
  refused {source error s s'} hKnown hRefused _ error hError := by
    cases hError
    obtain ⟨hFile, hPath, -⟩ := FrontMatter.hasPosition_of_error hRefused
    exact .inr ⟨source, hKnown, hFile, hPath⟩
  following failure s₁ s₂ s₃ h h' := h'.outer h.trans fun _ => rfl
  reading s count := by
    refine ⟨⟨s.rest.take count, ?_, ?_⟩, rfl, rfl⟩
    · rw [s.rest_advance, List.take_append_drop]
    · exact Reader.cursor_advance count s.document.reader
  moving _ _ _ := .same rfl rfl rfl
  suspending _ _ h := ⟨h.read, h.file, h.path⟩
  suspendingFailed _ _ _ h := h.outer (fun h => ⟨h.read, h.file, h.path⟩) fun _ => rfl
  scoping _ _ h := ⟨h.read, h.file, h.path⟩
  scopingFailed _ _ _ h := h.outer (fun h => ⟨h.read, h.file, h.path⟩) fun _ => rfl
  counting _ _ := .same rfl rfl rfl
  defining _ _ _ _ _ _ _ _ := .same rfl rfl rfl
  loading _ _ := .same rfl rfl rfl
  nesting _ _ _ _ _ := .same rfl rfl rfl
  includingFailed failure s s' source text hKnown h error hError := by
    rcases h error hError with ⟨hAlong, hPlace⟩ | hLibrary
    · refine .inr ⟨source, hKnown, ?_, ?_⟩ <;> rw [hPlace]
      · exact hAlong.file
      · exact hAlong.path
    · exact .inr hLibrary
  generatingFailed failure s s' text h error hError := by
    cases failure with
    | outOfFuel => cases hError
    | error inner =>
        unfold relocate at hError
        dsimp only at hError
        split at hError
        · cases hError
          exact .inl ⟨.same rfl rfl rfl, rfl⟩
        · rename_i hElsewhere
          cases hError
          rcases h error rfl with ⟨hAlong, hPlace⟩ | hLibrary
          · refine absurd ⟨?_, ?_⟩ hElsewhere <;> rw [hPlace]
            · exact hAlong.file
            · exact hAlong.path
          · exact .inr hLibrary

/-- A library that can be found and read in these files. -/
def Findable (env : Env) (library : Source) : Prop :=
  ∃ base name path location text,
    Library.resolve? env.files env.options base name = some (path, location) ∧
      env.files.readText path = .ok text ∧ library = Source.ofFile path text

instance (env : Env) : KnownLibraries (Findable env) env :=
  ⟨fun hFound hText => ⟨_, _, _, _, _, hFound, hText, rfl⟩⟩

/-- From the start of a document on, an error with its names is at a position of its
text, unless a library has these names too. -/
theorem Blamed.hasPosition {env : Env} {session : Session} {source : Source} {text : String}
    {target : Target} {error : LocatedError} {last : ExpandState}
    (h : Blamed (Findable env) (.error error)
      { session, document := DocumentState.start source.filename source.path text target } last)
    (hLibraries : ∀ library, Findable env library →
      ¬ (library.filename = source.filename ∧ library.path = source.path))
    (hFile : error.file = source.filename) (hPath : error.path = source.path) :
    Text.HasPosition text.toList error.row error.col := by
  rcases h error rfl with ⟨hAlong, hPlace⟩ | ⟨library, hFindable, hFile', hPath'⟩
  · obtain ⟨read, hRest, hCursor⟩ := hAlong.read
    have hRow : error.row = (Cursor.start.advance read).row := by
      rw [hPlace]
      exact congrArg Cursor.row hCursor
    have hCol : error.col = (Cursor.start.advance read).col := by
      rw [hPlace]
      exact congrArg Cursor.col hCursor
    rw [hRow, hCol]
    exact Text.hasPosition_advance ⟨last.rest, hRest.symm⟩
  · exact absurd ⟨hFile'.symm.trans hFile, hPath'.symm.trans hPath⟩ (hLibraries library hFindable)

/-- What a compilation does first, whatever its target is. -/
def normalizingPass (env : Env) (fuel : Nat) : Expand String := do
  env.options.preload.forM fun name => includeLibrary env (blockReader env fuel) name
  expandDocument env fuel

/-- Rendering reads what normalization gives, and normalization alone is the document itself. -/
theorem outcome_passes (env : Env) (fuel : Nat) (source : Source) (target : Target)
    (s : ExpandState) :
    outcome (passes env fuel source target) s =
      match outcome (normalizingPass env fuel) s with
      | (.ok normalized, middle) =>
        if target.isRender then outcome (pass env fuel source normalized target) middle
        else (.ok normalized, middle)
      | (.error failure, middle) => (.error failure, middle) := by
  unfold passes normalizingPass
  rw [outcome_bind, outcome_bind]
  generalize outcome (env.options.preload.forM _) s = result
  obtain ⟨_ | u, middle⟩ := result
  · rfl
  · dsimp only
    rw [outcome_bind]
    generalize outcome (expandDocument env fuel) middle = result
    obtain ⟨_ | normalized, last⟩ := result
    · rfl
    · dsimp only
      split <;> rfl

/-- A law of failures holds for a list of steps if it holds for each. -/
theorem FailureLaw.forM {α : Type} {known : Source → Prop} {R : ExpandState → ExpandState → Prop}
    {E : Failure → ExpandState → ExpandState → Prop} (law : FailureLaw known R E)
    {action : α → Expand Unit} (hAction : ∀ a, Obeys R E (action a)) (items : List α) :
    Obeys R E (items.forM action) := by
  induction items with
  | nil => exact law.pure _
  | cons item items ih => exact law.bind (hAction item) fun _ => ih

/-- A law of failures holds for the preloads and the first pass together. -/
theorem FailureLaw.normalizingPass {known : Source → Prop} {R : ExpandState → ExpandState → Prop}
    {E : Failure → ExpandState → ExpandState → Prop} (law : FailureLaw known R E) (env : Env)
    [KnownLibraries known env] (fuel : Nat) : Obeys R E (Expand.normalizingPass env fuel) :=
  law.bind (law.forM (law.includeLibrary env fun marker? => law.block env fuel marker? "") _)
    fun _ => law.expandDocument env fuel

end Expand

namespace Compiler

open Expand

def opening (source : Source) (text : String) : ExpandState :=
  { session := Session.ofRegistry Registry.builtins
    document := DocumentState.start source.filename source.path text .normalize }

/-- A compilation is its front matter and its passes. -/
theorem compileWith_eq (fuel : Nat) (env : Env) (source : Source) (target : Target) :
    compileWith fuel env source target =
      match FrontMatter.extract source with
      | .error error => .error (.error error)
      | .ok (headers, text) =>
        match (outcome (passes env fuel source target) (opening source text)).1 with
        | .ok document => .ok { document, headers }
        | .error failure => .error failure := by
  unfold compileWith
  cases FrontMatter.extract source with
  | error error => rfl
  | ok parts =>
      obtain ⟨headers, text⟩ := parts
      have hRun : (outcome (passes env fuel source target) (opening source text)).1 =
        ((passes env fuel source target).run (opening source text)).1 := rfl
      dsimp only [Except.mapError, bind, Except.bind]
      rw [hRun]
      unfold opening
      cases ((passes env fuel source target).run _).1 <;> rfl

/-- An error with the names of the source, which no library has, is at a position of the
source, as long as the source cannot be normalized. If it can, the error is at a position
of the normalized text. -/
theorem error_position {fuel : Nat} {env : Env} {source : Source} {target : Target}
    {error : LocatedError}
    (hLibraries : ∀ library, Findable env library →
      ¬ (library.filename = source.filename ∧ library.path = source.path))
    (h : compileWith fuel env source target = .error (.error error))
    (hFile : error.file = source.filename) (hPath : error.path = source.path) :
    (∀ failure, compileWith fuel env source .normalize = .error failure →
      failure = .error error ∧ Text.HasPosition source.text.toList error.row error.col) ∧
    ∀ normalized, compileWith fuel env source .normalize = .ok normalized →
      target.isRender = true ∧ Text.HasPosition normalized.document.toList error.row error.col := by
  rw [compileWith_eq] at h ⊢
  generalize hExtract : FrontMatter.extract source = extracted at h ⊢
  cases extracted with
  | error refused =>
      cases h
      refine ⟨fun failure hFailure => ?_, fun normalized hNormalized => nomatch hNormalized⟩
      cases hFailure
      exact ⟨rfl, (FrontMatter.hasPosition_of_error hExtract).2.2⟩
  | ok parts =>
      obtain ⟨headers, text⟩ := parts
      dsimp only at h ⊢
      rw [outcome_passes] at h ⊢
      generalize hNormal : outcome (normalizingPass env fuel) (opening source text) = result at h ⊢
      obtain ⟨failure | normalized, middle⟩ := result
      · cases h
        refine ⟨fun failure hFailure => ?_, fun normalized hNormalized => nomatch hNormalized⟩
        cases hFailure
        have hBlamed := ((along (Findable env)).normalizingPass env fuel).error hNormal
        exact ⟨rfl, FrontMatter.hasPosition_of_extractWith hExtract
          (Blamed.hasPosition hBlamed hLibraries hFile hPath)⟩
      · dsimp only at h ⊢
        rw [if_neg (by decide)]
        refine ⟨fun failure hFailure => (nomatch hFailure), fun output hOutput => ?_⟩
        cases hOutput
        by_cases hRender : target.isRender
        · rw [if_pos hRender] at h
          refine ⟨hRender, ?_⟩
          unfold Expand.pass at h
          rw [outcome_bind_of_ok (outcome_modifyDocument _ middle)] at h
          generalize hRun : outcome (expandDocument env fuel) _ = result at h
          obtain ⟨failure | document, last⟩ := result
          · cases h
            have hBlamed := ((along (Findable env)).expandDocument env fuel).error hRun
            exact Blamed.hasPosition hBlamed hLibraries hFile hPath
          · cases h
        · rw [if_neg hRender] at h
          cases h

def document? : Except Failure Output → Option String
  | .ok output => some output.document
  | .error _ => none

def failure? : Except Failure Output → Option Failure
  | .ok _ => none
  | .error failure => some failure

theorem eq_error_of_failure? {result : Except Failure Output} {failure : Failure}
    (h : failure? result = some failure) : result = .error failure := by
  cases result with
  | ok output => cases h
  | error other =>
      cases h
      rfl

theorem exists_ok_of_document? {result : Except Failure Output} (h : (document? result).isSome) :
    ∃ output, result = .ok output := by
  cases result with
  | ok output => exact ⟨output, rfl⟩
  | error failure => cases h

/-- Without files there are no libraries. -/
theorem not_findable_plain (library : Source) : ¬ Findable plainEnv library := by
  rintro ⟨base, name, path, location, text, -, hText, -⟩
  have hNone : ∀ location, plainEnv.files.content? location = none := fun _ => rfl
  unfold FileTree.readText FileTree.readBytes at hText
  cases hLocate : plainEnv.files.locate path with
  | error cause =>
      rw [hLocate] at hText
      cases hText
  | ok location =>
      rw [hLocate] at hText
      dsimp only [bind, Except.bind] at hText
      rw [hNone] at hText
      cases hText

/-- A document with headers and an invocation that nothing defines. -/
def undefined : Source :=
  Source.ofText "---\n---\na \\b"

theorem undefined_fails : ∀ target ∈ [Target.normalize, Target.web],
    failure? (compileWith 20 plainEnv undefined target) =
      some (.error ⟨"<string>", "", 2, 3, .unknownFunction⟩) := by
  decide +kernel

/-- The error is behind the escape, in the last row. -/
theorem error_position_undefined : Text.HasPosition undefined.text.toList 2 3 := by
  have hNormalize := eq_error_of_failure? (undefined_fails .normalize (by decide))
  have hWeb := eq_error_of_failure? (undefined_fails .web (by decide))
  have hPosition := error_position (fun library hFound _ => not_findable_plain library hFound)
    hWeb rfl rfl
  exact (hPosition.1 _ hNormalize).2

/-- A macro of the web pass with a script, which nothing evaluates, called behind two
rows of text. -/
def unsupported : Source :=
  Source.ofText ("\\newcommand\x7bm: script() ctx->web\x7d\x7bx\x7d\n" ++
    "aaaaaaaaaaaaaaaaaaaa\naaaaaaaaaaaaaaaaaaaa\n\\m\x7b\x7d")

/-- The rows are one in the normalized text, and the error is at a column that the row of
the source does not have. -/
theorem error_position_lost :
    (∀ library, ¬ Findable plainEnv library) ∧
    failure? (compileWith 60 plainEnv unsupported .web) =
      some (.error ⟨unsupported.filename, unsupported.path, 0, 46,
        .evaluation (.unsupportedLanguage .script)⟩) ∧
    ¬ Text.HasPosition unsupported.text.toList 0 46 :=
  ⟨not_findable_plain, by decide +kernel, by decide +kernel⟩

end Compiler

end MacroMarkup
