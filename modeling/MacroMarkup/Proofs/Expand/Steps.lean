import MacroMarkup.Proofs.Expand.Place
import MacroMarkup.Proofs.Text.Split

/-! What each kind of place comes to, where it succeeds. A proof about a run
takes it apart with these, from the block loop down to the reading of scopes. -/
namespace MacroMarkup

/-- Only macros of the normalizing pass are evaluated in it. -/
theorem Mode.appliesTo_normalize {mode : Mode} (h : mode ≠ .normalize) :
    mode.appliesTo .normalize = false := by
  cases mode with
  | normalize => exact absurd rfl h
  | docRender => rfl
  | webRender => rfl

/-- Whether each of the scopes that a macro is called with is verbatim. -/
def UserMacro.scopes (user : UserMacro) : List Bool :=
  match user.kind with
  | .command => user.signature.verbatim
  | .environment => user.signature.verbatim.dropLast

/-- What `settleParagraph` emits, and the engine that it leaves. -/
def AutoBreak.settle (policy : BreakPolicy) (engine : AutoBreak) : String × AutoBreak :=
  let flushed := engine.flush
  let settled := match policy with
    | .wrapInParagraph => flushed.2.ensureOpen false
    | .leaveParagraph => flushed.2.close
  (flushed.1 ++ settled.1, settled.2)

namespace ExpandState

/-- The state behind an invocation of the given length, one level deeper. -/
def entered (s : ExpandState) (length : Nat) : ExpandState :=
  (s.advance length).withDepth (s.document.depth + 1)

/-- Behind a spelling stands what follows it. -/
theorem rest_entered {s : ExpandState} {key after : List Char} (h : s.rest = key ++ after) :
    (s.entered key.length).rest = after := by
  change (s.advance key.length).rest = after
  rw [s.rest_advance, h, List.drop_left]

/-- The state in which an invocation of the given length reads its arguments, behind
the operation on the paragraph engine that comes first. -/
def calling (s : ExpandState) (length : Nat) (engine : AutoBreak) : ExpandState :=
  ((s.entered length).withEngine engine).suspend

/-- The state back on the level above, after so many firings. -/
def exited (s : ExpandState) (firings : Nat) : ExpandState :=
  (s.withDepth (s.document.depth - 1)).update fun document =>
    { document with executed := document.executed + firings }

/-- Behind a marker that was found, what was written there is read next. -/
theorem rest_behind {s : ExpandState} {marker : String} {content tail : List Char}
    (h : s.rest = content ++ marker.toList ++ tail) :
    (s.advance (content.length + marker.length)).rest = tail := by
  rw [s.rest_advance, h, ← String.length_toList, ← List.length_append, List.drop_left]

end ExpandState

namespace Expand

variable {env : Env} {block : BlockReader} {rounds : Nat} {s s' : ExpandState}

/-- Settling is an operation of the engine alone. -/
theorem outcome_settleParagraph (policy : BreakPolicy) (s : ExpandState) :
    outcome (settleParagraph policy) s =
      (.ok (s.engine.settle policy).1, s.withEngine (s.engine.settle policy).2) := by
  cases policy <;> rfl

/-- A character goes to the engine and is read. -/
theorem outcome_literal (c : Char) (s : ExpandState) :
    outcome (literal c) s =
      (.ok (s.engine.process c).1, (s.withEngine (s.engine.process c).2).advance 1) := rfl

/-- Within the limit one level is entered. -/
theorem outcome_descend_within (hDepth : s.document.depth + 1 ≤ env.options.maxDepth)
    (length : Nat) : outcome (descend env) (s.advance length) = (.ok (), s.entered length) := by
  rw [outcome_descend]
  exact if_neg (Nat.not_lt.mpr hDepth)

/-- A level that is entered is within the limit. -/
theorem descend_ok {u : Unit} (h : outcome (descend env) s = (.ok u, s')) :
    s.document.depth + 1 ≤ env.options.maxDepth ∧ s' = s.withDepth (s.document.depth + 1) := by
  rw [outcome_descend] at h
  split at h
  · cases h
  · cases h
    exact ⟨by omega, rfl⟩

/-- An invocation fails on the level that it would enter, or it does what its
handler does there. -/
theorem outcome_dispatch (rounds : Nat) (handler : Handler) (length : Nat)
    (hDepth : s.document.depth + 1 ≤ env.options.maxDepth) :
    outcome (dispatch env block rounds handler length) s =
      match outcome (runHandler env block rounds handler (String.ofList (s.rest.take length)))
          (s.entered length) with
      | (.ok expansion, middle) => (.ok expansion.text, middle.exited expansion.firings)
      | (.error failure, middle) => (.error failure, middle) := by
  unfold dispatch
  rw [outcome_bind_of_ok (outcome_rest s)]
  dsimp only
  rw [outcome_bind_of_ok (outcome_advance length s),
    outcome_bind_of_ok (outcome_descend_within hDepth length), outcome_bind]
  generalize outcome (runHandler env block rounds handler _) (s.entered length) = result
  obtain ⟨_ | expansion, middle⟩ := result <;> rfl

/-- A dispatch that succeeds is a handler that succeeds one level deeper. -/
theorem dispatch_ok {handler : Handler} {length : Nat} {text : String}
    (h : outcome (dispatch env block rounds handler length) s = (.ok text, s')) :
    s.document.depth + 1 ≤ env.options.maxDepth ∧ ∃ expansion middle,
      outcome (runHandler env block rounds handler (String.ofList (s.rest.take length)))
        (s.entered length) = (.ok expansion, middle) ∧
      text = expansion.text ∧ s' = middle.exited expansion.firings := by
  unfold dispatch at h
  rw [outcome_bind_of_ok (outcome_rest s)] at h
  dsimp only at h
  rw [outcome_bind_of_ok (outcome_advance length s)] at h
  obtain ⟨u, entered, hDeeper, hHandler⟩ := outcome_bind_ok h
  obtain ⟨hDepth, rfl⟩ := descend_ok hDeeper
  obtain ⟨expansion, middle, hRun, hExit⟩ := outcome_bind_ok hHandler
  cases hExit
  exact ⟨hDepth, expansion, middle, hRun, rfl, rfl⟩

/-! Reading of scopes. -/

/-- The text in front of the marker is read together with it. Without a marker all is read. -/
theorem outcome_readPast (marker shown : String) (s : ExpandState) :
    outcome (readPast marker shown) s =
      match Text.before? marker.toList s.rest with
      | some content =>
        (.ok (String.ofList content), s.advance (content.length + marker.length))
      | none =>
        (.error (.error ((s.advance s.rest.length).document.error (.expectedEndMarker shown))),
          s.advance s.rest.length) := by
  unfold readPast
  rw [outcome_bind_of_ok (outcome_rest s)]
  cases Text.before? marker.toList s.rest <;> rfl

theorem toList_blockEnd (indent : Nat) (marker : String) :
    (blockEnd indent marker).toList = '\n' :: (List.replicate indent ' ' ++ marker.toList) := by
  simp [blockEnd]

theorem outcome_expectScopeBegin {text : List Char} (hRest : s.rest = '\x7b' :: text) :
    outcome expectScopeBegin s = (.ok (), s.advance 1) := by
  unfold expectScopeBegin
  rw [outcome_bind_of_ok (outcome_rest s), hRest]
  rfl

/-- A scope that is begun has its brace. -/
theorem expectScopeBegin_ok {u : Unit} (h : outcome expectScopeBegin s = (.ok u, s')) :
    ∃ text, s.rest = '\x7b' :: text ∧ s' = s.advance 1 := by
  unfold expectScopeBegin at h
  rw [outcome_bind_of_ok (outcome_rest s)] at h
  split at h
  · rename_i hPrefix
    rw [List.isPrefixOf_iff_prefix] at hPrefix
    obtain ⟨text, hText⟩ := hPrefix
    refine ⟨text, hText.symm, ?_⟩
    cases h
    rfl
  · cases h

/-- A verbatim scope ends at its first closing brace. -/
theorem outcome_verbatimScope {content after : List Char}
    (hRest : s.rest = '\x7b' :: (content ++ '\x7d' :: after)) (hContent : '\x7d' ∉ content) :
    outcome verbatimScope s = (.ok (String.ofList content), s.advance (content.length + 2)) := by
  unfold verbatimScope
  rw [outcome_bind_of_ok (outcome_expectScopeBegin hRest), outcome_readPast, s.rest_advance, hRest]
  have hFound : Text.before? Spelling.scopeEnd.toList (content ++ '\x7d' :: after) = some content :=
    Text.before?_single_of_not_mem hContent after
  rw [List.drop_succ_cons, List.drop_zero, hFound]
  dsimp only
  rw [s.advance_advance]
  have hLength : 1 + (content.length + Spelling.scopeEnd.length) = content.length + 2 := by
    have hOne : Spelling.scopeEnd.length = 1 := rfl
    omega
  rw [hLength]

theorem toList_braced (text : String) :
    (Spelling.braced text).toList = '\x7b' :: (text.toList ++ ['\x7d']) := by
  rw [Spelling.braced, String.toList_append, String.toList_append]
  rfl

/-- Text in front of a marker of one character does not hold that character. -/
theorem readPast_single_ok {marker shown : String} {c : Char} (hMarker : marker.toList = [c])
    {text : String} (h : outcome (readPast marker shown) s = (.ok text, s')) :
    ∃ after, s.rest = text.toList ++ c :: after ∧ c ∉ text.toList ∧
      s' = s.advance (text.toList.length + 1) := by
  rw [outcome_readPast, hMarker] at h
  generalize hFound : Text.before? [c] s.rest = found at h
  cases found with
  | none => cases h
  | some content =>
      cases h
      obtain ⟨after, hAfter⟩ := Text.before?_some hFound
      have hLength : marker.length = 1 := by
        rw [← String.length_toList, hMarker]
        rfl
      rw [String.toList_ofList, hLength]
      refine ⟨after, ?_, Text.not_mem_of_before?_single hFound, rfl⟩
      rw [← hAfter]
      simp

/-- A verbatim scope that is read stands in braces and holds no closing one. -/
theorem verbatimScope_ok {text : String} (h : outcome verbatimScope s = (.ok text, s')) :
    ∃ after, s.rest = '\x7b' :: (text.toList ++ '\x7d' :: after) ∧ '\x7d' ∉ text.toList ∧
      s' = s.advance (text.toList.length + 2) := by
  unfold verbatimScope at h
  obtain ⟨u, middle, hBegin, hRead⟩ := outcome_bind_ok h
  obtain ⟨inner, hRest, rfl⟩ := expectScopeBegin_ok hBegin
  obtain ⟨after, hInner, hContent, rfl⟩ := readPast_single_ok rfl hRead
  rw [s.rest_advance, hRest] at hInner
  refine ⟨after, ?_, hContent, ?_⟩
  · rw [hRest]
    exact congrArg _ hInner
  · rw [s.advance_advance, Nat.add_comm 1]

/-- A scope is read one level deeper, as a block that its closing brace ends. -/
theorem outcome_parsedScope {text : List Char} (hRest : s.rest = '\x7b' :: text)
    (hDepth : s.document.depth + 1 ≤ env.options.maxDepth) :
    outcome (parsedScope env block) s =
      match outcome (block (some ['\x7d'])) (s.entered 1) with
      | (.ok contents, middle) => (.ok contents, middle.withDepth (middle.document.depth - 1))
      | (.error failure, middle) => (.error failure, middle) := by
  unfold parsedScope
  have hMarker : Spelling.scopeEnd.toList = ['\x7d'] := rfl
  rw [outcome_bind_of_ok (outcome_expectScopeBegin hRest),
    outcome_bind_of_ok (outcome_descend_within hDepth 1), hMarker, outcome_bind]
  generalize outcome (block (some ['\x7d'])) (s.entered 1) = result
  obtain ⟨_ | contents, middle⟩ := result <;> rfl

/-- A scope that is parsed is a block one level deeper. -/
theorem parsedScope_ok {contents : String}
    (h : outcome (parsedScope env block) s = (.ok contents, s')) :
    s.document.depth + 1 ≤ env.options.maxDepth ∧ ∃ text middle, s.rest = '\x7b' :: text ∧
      outcome (block (some ['\x7d'])) (s.entered 1) = (.ok contents, middle) ∧
      s' = middle.withDepth (middle.document.depth - 1) := by
  unfold parsedScope at h
  obtain ⟨u, begun, hBegin, hScope⟩ := outcome_bind_ok h
  obtain ⟨text, hRest, rfl⟩ := expectScopeBegin_ok hBegin
  obtain ⟨u', entered, hDeeper, hContents⟩ := outcome_bind_ok hScope
  obtain ⟨hDepth, rfl⟩ := descend_ok hDeeper
  obtain ⟨contents', middle, hBlock, hExit⟩ := outcome_bind_ok hContents
  cases hExit
  exact ⟨hDepth, text, middle, hRest, hBlock, rfl⟩

theorem outcome_emptyScope (s : ExpandState) :
    outcome emptyScope s =
      if ['\x7b', '\x7d'] <+: s.rest then (.ok true, s.advance 2) else (.ok false, s) := by
  unfold emptyScope
  have hSpelling : Spelling.emptyScope.toList = ['\x7b', '\x7d'] := rfl
  rw [outcome_bind_of_ok (outcome_rest s), hSpelling]
  by_cases hPrefix : ['\x7b', '\x7d'] <+: s.rest
  · rw [if_pos hPrefix, if_pos (List.isPrefixOf_iff_prefix.mpr hPrefix)]
    rfl
  · rw [if_neg hPrefix, if_neg (fun h => hPrefix (List.isPrefixOf_iff_prefix.mp h))]
    rfl

theorem outcome_emptyScope_braces {after : List Char} (hRest : s.rest = '\x7b' :: '\x7d' :: after) :
    outcome emptyScope s = (.ok true, s.advance 2) := by
  have hPrefix : ['\x7b', '\x7d'] <+: s.rest := by
    rw [hRest]
    exact List.prefix_append ['\x7b', '\x7d'] after
  rw [outcome_emptyScope, if_pos hPrefix]

theorem outcome_expectLineBreak (cause : ErrorCause) (s : ExpandState) :
    outcome (expectLineBreak cause) s =
      if ['\n'] <+: s.rest then (.ok (), s)
      else (.error (.error (s.document.error cause)), s) := by
  unfold expectLineBreak
  rw [outcome_bind_of_ok (outcome_rest s)]
  by_cases hPrefix : ['\n'] <+: s.rest
  · rw [if_pos hPrefix, if_pos (List.isPrefixOf_iff_prefix.mpr hPrefix)]
    rfl
  · rw [if_neg hPrefix, if_neg (fun h => hPrefix (List.isPrefixOf_iff_prefix.mp h))]
    rfl

theorem outcome_wholeDocument (block : BlockReader) (s : ExpandState) :
    outcome (wholeDocument block) s =
      match outcome (block none) s with
      | (.ok output, middle) =>
        (.ok (output ++ middle.engine.close.1), middle.withEngine middle.engine.close.2)
      | (.error failure, middle) => (.error failure, middle) := by
  unfold wholeDocument
  rw [outcome_bind]
  generalize outcome (block none) s = result
  obtain ⟨_ | output, middle⟩ := result <;> rfl

theorem wholeDocument_ok {block : BlockReader} {text : String}
    (h : outcome (wholeDocument block) s = (.ok text, s')) :
    ∃ output middle, outcome (block none) s = (.ok output, middle) ∧
      text = output ++ middle.engine.close.1 ∧ s' = middle.withEngine middle.engine.close.2 := by
  rw [outcome_wholeDocument] at h
  generalize outcome (block none) s = result at h
  obtain ⟨_ | output, middle⟩ := result
  · cases h
  · cases h
    exact ⟨output, middle, rfl, rfl, rfl⟩

/-- What succeeds with the engine suspended succeeds, and the engine is resumed as it was. -/
theorem suspended_ok {α : Type} {action : Expand α} {a : α}
    (h : outcome (suspended action) s = (.ok a, s')) :
    ∃ middle, outcome action s.suspend = (.ok a, middle) ∧ s' = middle.resume s.engine.enabled := by
  rw [outcome_suspended] at h
  generalize outcome action s.suspend = result at h
  obtain ⟨result, middle⟩ := result
  cases h
  exact ⟨middle, rfl, rfl⟩

/-! Rounds of generated text. -/

/-- A round reads a document of its own. Only the session and the count of
firings come back from it. -/
theorem outcome_round (block : BlockReader) (text : String) (s : ExpandState) :
    outcome (round block text) s =
      match outcome (wholeDocument block) (s.withDocument (s.document.generated text)) with
      | (.ok output, middle) =>
        (.ok (output, middle.document.executed),
          (middle.withDocument s.document).update fun document =>
            { document with executed := document.executed + middle.document.executed })
      | (.error failure, middle) =>
        (.error (relocate s.document failure), middle.withDocument s.document) := by
  unfold round
  rw [outcome_bind_of_ok (outcome_document s), outcome_bind, outcome_tryCatch, outcome_onDocument]
  have hGenerated : { DocumentState.start s.document.file s.document.path text s.document.target with
      depth := s.document.depth, autobreak := AutoBreak.disabled s.document.target } =
        s.document.generated text := rfl
  rw [hGenerated]
  generalize outcome (wholeDocument block) (s.withDocument (s.document.generated text)) = result
  obtain ⟨_ | output, middle⟩ := result <;> rfl

theorem round_ok {text : String} {result : String × Nat}
    (h : outcome (round block text) s = (.ok result, s')) :
    ∃ output middle,
      outcome (block none) (s.withDocument (s.document.generated text)) = (.ok output, middle) ∧
      result = (output ++ middle.engine.close.1, middle.document.executed) ∧
      s' = (middle.withDocument s.document).update fun document =>
        { document with executed := document.executed + middle.document.executed } := by
  rw [outcome_round, outcome_wholeDocument] at h
  generalize outcome (block none) (s.withDocument (s.document.generated text)) = inner at h
  obtain ⟨_ | output, middle⟩ := inner
  · cases h
  · cases h
    exact ⟨output, middle, rfl, rfl, rfl⟩

/-- Another round follows if something has fired in this one. -/
theorem outcome_toFixpoint_succ (block : BlockReader) (rounds : Nat) (text : String)
    (s : ExpandState) :
    outcome (toFixpoint block (rounds + 1) text) s =
      match outcome (round block text) s with
      | (.ok (output, fired), middle) =>
        if fired = 0 then (.ok output, middle) else outcome (toFixpoint block rounds output) middle
      | (.error failure, middle) => (.error failure, middle) := by
  rw [toFixpoint, outcome_bind]
  generalize outcome (round block text) s = result
  obtain ⟨_ | ⟨output, fired⟩, middle⟩ := result
  · rfl
  · dsimp only
    split <;> rfl

/-! Builtins that emit text. -/

/-- A character is rendered for its target. It has fired if that is not how it was written. -/
theorem outcome_escapedChar (char : EscapedChar) (invocation : String) (s : ExpandState) :
    outcome (escapedChar char invocation) s =
      (.ok (if char.render s.document.target = invocation then
          .passthrough ((s.engine.settle .wrapInParagraph).1 ++ char.render s.document.target)
        else .fired ((s.engine.settle .wrapInParagraph).1 ++ char.render s.document.target)),
        s.withEngine (s.engine.settle .wrapInParagraph).2) := by
  unfold escapedChar inlinePosition
  rw [outcome_bind_of_ok (outcome_settleParagraph _ s), outcome_bind_of_ok (outcome_document _)]
  rfl

/-- A comment is read to the end of its row, and nothing is left of it. -/
theorem outcome_comment (s : ExpandState) :
    outcome comment s =
      (.ok (.fired ""), s.advance (s.rest.takeWhile (· ≠ '\n')).length) := rfl

/-- A formula is copied, between other marks for the web. -/
theorem outcome_math {formula after : List Char} (hRest : s.rest = formula ++ '$' :: after)
    (hFormula : '$' ∉ formula) :
    outcome math s =
      (.ok (if s.document.target = .web then
          .fired ((s.engine.settle .wrapInParagraph).1 ++ Spelling.mathBeginWeb ++
            String.ofList formula ++ Spelling.mathEndWeb)
        else .passthrough ((s.engine.settle .wrapInParagraph).1 ++ Spelling.math ++
          String.ofList formula ++ Spelling.math)),
        (s.withEngine (s.engine.settle .wrapInParagraph).2).advance (formula.length + 1)) := by
  unfold math inlinePosition
  have hFound : Text.before? Spelling.math.toList
      (s.withEngine (s.engine.settle .wrapInParagraph).2).rest = some formula := by
    change Text.before? ['$'] s.rest = some formula
    rw [hRest]
    exact Text.before?_single_of_not_mem hFormula after
  rw [outcome_bind_of_ok (outcome_settleParagraph _ s), outcome_bind, outcome_readPast, hFound]
  dsimp only
  rw [outcome_bind_of_ok (outcome_document _)]
  change outcome (if s.document.target = .web then _ else _) _ = _
  by_cases hWeb : s.document.target = .web
  · rw [if_pos hWeb, if_pos hWeb]
    rfl
  · rw [if_neg hWeb, if_neg hWeb]
    rfl

/-- A formula that is read ends at a dollar sign. -/
theorem math_ok {expansion : Expansion} (h : outcome math s = (.ok expansion, s')) :
    ∃ formula after, s.rest = formula ++ '$' :: after ∧ '$' ∉ formula := by
  unfold math at h
  obtain ⟨opening, middle, hOpening, hRest⟩ := outcome_bind_ok h
  obtain ⟨formula, last, hFormula, -⟩ := outcome_bind_ok hRest
  obtain ⟨after, hAfter, hNot, -⟩ := readPast_single_ok rfl hFormula
  unfold inlinePosition at hOpening
  rw [outcome_settleParagraph] at hOpening
  cases hOpening
  exact ⟨formula.toList, after, hAfter, hNot⟩

/-- A paragraph opens anew and reads its scope with the engine suspended. -/
theorem outcome_paragraph {contents : String} {middle : ExpandState}
    (h : outcome (parsedScope env block) (s.withEngine (s.engine.ensureOpen true).2).suspend =
      (.ok contents, middle)) :
    outcome (paragraph env block) s =
      (.ok (.fired ((s.engine.ensureOpen true).1 ++ contents)),
        middle.resume (s.engine.ensureOpen true).2.enabled) := by
  unfold paragraph
  rw [outcome_bind_of_ok (outcome_withAutoBreak _ s), outcome_bind, outcome_suspended, h]
  rfl

theorem paragraph_ok {expansion : Expansion}
    (h : outcome (paragraph env block) s = (.ok expansion, s')) :
    ∃ contents middle,
      outcome (parsedScope env block) (s.withEngine (s.engine.ensureOpen true).2).suspend =
        (.ok contents, middle) ∧
      expansion = .fired ((s.engine.ensureOpen true).1 ++ contents) ∧
      s' = middle.resume (s.engine.ensureOpen true).2.enabled := by
  unfold paragraph at h
  rw [outcome_bind_of_ok (outcome_withAutoBreak _ s)] at h
  obtain ⟨contents, after, hScope, hRest⟩ := outcome_bind_ok h
  obtain ⟨middle, hInner, rfl⟩ := suspended_ok hScope
  cases hRest
  exact ⟨contents, middle, hInner, rfl, rfl⟩

/-! Invocations of macros. -/

/-- Behind its arguments an invocation is evaluated or written again. -/
theorem outcome_invoke (user : UserMacro) (invocation : String) {args : CallArgs × Bool}
    {middle : ExpandState}
    (hArgs : outcome (callArgs env block user s.document.reader.indent)
      (s.withEngine (s.engine.settle user.signature.policy).2).suspend = (.ok args, middle)) :
    outcome (invoke env block rounds user invocation) s =
      if user.signature.mode.appliesTo middle.document.target then
        match outcome (evaluate env block rounds user args.1.values)
            (middle.resume (s.engine.settle user.signature.policy).2.enabled) with
        | (.ok text, last) => (.ok (.fired ((s.engine.settle user.signature.policy).1 ++ text)), last)
        | (.error failure, last) => (.error failure, last)
      else
        (.ok (.passthrough ((s.engine.settle user.signature.policy).1 ++
            user.reemit invocation args.1 args.2)),
          middle.resume (s.engine.settle user.signature.policy).2.enabled) := by
  unfold invoke
  rw [outcome_bind_of_ok (outcome_document s)]
  dsimp only
  rw [outcome_bind_of_ok (outcome_settleParagraph _ s), outcome_bind, outcome_suspended, hArgs]
  obtain ⟨args, emptyScope⟩ := args
  dsimp only
  rw [outcome_bind_of_ok (outcome_document _)]
  change outcome (if user.signature.mode.appliesTo middle.document.target then _ else _) _ = _
  have hResumed : middle.resume
      (s.withEngine (s.engine.settle user.signature.policy).2).engine.enabled =
        middle.resume (s.engine.settle user.signature.policy).2.enabled := rfl
  rw [hResumed]
  split
  · rw [outcome_bind]
    generalize outcome (evaluate env block rounds user _) _ = result
    obtain ⟨_ | text, last⟩ := result <;> rfl
  · rfl

/-- Outside of the normalizing pass an evaluation is one call of the evaluator. -/
theorem outcome_evaluate (block : BlockReader) (rounds : Nat) (user : UserMacro)
    (values : List String) (hTarget : s.document.target ≠ .normalize) :
    outcome (evaluate env block rounds user values) s =
      match user.preferredBody? env.evaluator with
      | none => (.error (.error (s.document.error .unknownFunction)), s)
      | some body =>
        match env.evaluator.evaluate user.name body values with
        | .ok text => (.ok text, s)
        | .error error => (.error (.error (s.document.error (.evaluation error))), s) := by
  unfold evaluate
  cases user.preferredBody? env.evaluator with
  | none => rfl
  | some body =>
      dsimp only
      rw [outcome_bind, outcome_located]
      cases env.evaluator.evaluate user.name body values with
      | error error => rfl
      | ok text =>
          dsimp only [Except.mapError]
          rw [outcome_bind_of_ok (outcome_document s), if_neg hTarget]
          rfl

/-- An invocation that succeeds has read its arguments. -/
theorem invoke_ok {user : UserMacro} {invocation : String} {expansion : Expansion}
    (h : outcome (invoke env block rounds user invocation) s = (.ok expansion, s')) :
    ∃ args middle, outcome (callArgs env block user s.document.reader.indent)
      (s.withEngine (s.engine.settle user.signature.policy).2).suspend = (.ok args, middle) := by
  unfold invoke at h
  rw [outcome_bind_of_ok (outcome_document s)] at h
  dsimp only at h
  rw [outcome_bind_of_ok (outcome_settleParagraph _ s)] at h
  obtain ⟨args, after, hArgs, -⟩ := outcome_bind_ok h
  obtain ⟨middle, hInner, rfl⟩ := suspended_ok hArgs
  exact ⟨args, middle, hInner⟩

/-- A command without parameters reads at most an empty scope, any other one
scope for each of its parameters. -/
theorem callArgs_command_ok {user : UserMacro} (hKind : user.kind = .command) {indent : Nat}
    {args : CallArgs × Bool} (h : outcome (callArgs env block user indent) s = (.ok args, s')) :
    user.signature.verbatim = [] ∧ args.1 = ⟨[], none⟩ ∧
        outcome emptyScope s = (.ok args.2, s') ∨
      user.signature.verbatim ≠ [] ∧ ∃ scopes, scopes ≠ [] ∧ args = (⟨scopes, none⟩, false) ∧
        outcome (user.signature.verbatim.mapM (argument env block)) s = (.ok scopes, s') := by
  unfold callArgs at h
  cases hFlags : user.signature.verbatim with
  | nil =>
      rw [hFlags, List.isEmpty_nil, if_pos rfl] at h
      obtain ⟨empty, middle, hEmpty, hPure⟩ := outcome_bind_ok h
      cases hPure
      exact .inl ⟨rfl, rfl, hEmpty⟩
  | cons flag flags =>
      rw [hFlags, List.isEmpty_cons, if_neg (by decide)] at h
      obtain ⟨read, middle, hArgs, hPure⟩ := outcome_bind_ok h
      cases hPure
      unfold arguments at hArgs
      rw [hKind] at hArgs
      obtain ⟨scopes, middle, hScopes, hPure⟩ := outcome_bind_ok hArgs
      cases hPure
      rw [hFlags] at hScopes
      refine .inr ⟨by simp, scopes, ?_, rfl, hScopes⟩
      rw [List.mapM_cons] at hScopes
      obtain ⟨value, after, -, hRest⟩ := outcome_bind_ok hScopes
      obtain ⟨others, last, -, hPure⟩ := outcome_bind_ok hRest
      cases hPure
      simp

/-- An environment with parameters reads a scope for each but the last, which is its body. -/
theorem callArgs_environment_ok {user : UserMacro} (hKind : user.kind = .environment)
    (hFlags : user.signature.verbatim ≠ []) {indent : Nat} {args : CallArgs × Bool}
    (h : outcome (callArgs env block user indent) s = (.ok args, s')) :
    ∃ scopes body middle, args = (⟨scopes, some body⟩, false) ∧
      outcome (user.signature.verbatim.dropLast.mapM (argument env block)) s =
        (.ok scopes, middle) ∧
      outcome (environmentBody user.name indent) middle = (.ok body, s') := by
  unfold callArgs at h
  rw [List.isEmpty_eq_false_iff.mpr hFlags, if_neg (by decide)] at h
  obtain ⟨read, last, hArgs, hPure⟩ := outcome_bind_ok h
  cases hPure
  unfold arguments at hArgs
  rw [hKind] at hArgs
  obtain ⟨scopes, middle, hScopes, hEnclosed⟩ := outcome_bind_ok hArgs
  obtain ⟨body, last, hBody, hPure⟩ := outcome_bind_ok hEnclosed
  cases hPure
  exact ⟨scopes, body, middle, rfl, hScopes, hBody⟩

end Expand

end MacroMarkup
