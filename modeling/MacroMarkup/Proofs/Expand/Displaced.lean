import MacroMarkup.Proofs.Expand.Steps

/-! A run at another place. What an expansion comes to depends on the text that remains,
on how its row is indented and on the session, and the limit on the depth leaves room on
every level that is less deep. So a run that succeeds does the same behind another text,
on the same level or on one above it. -/
namespace MacroMarkup

/-- The state at another place of another text, on another level and behind another count
of firings. -/
def ExpandState.displaced (s : ExpandState) (reader : Reader) (depth executed : Nat) : ExpandState :=
  s.update fun document => { document with reader, depth, executed }

namespace Expand

/-- The second state has the same to read as the first, in a row that is indented alike, is
not deeper, and has counted so many firings fewer. -/
inductive Displaced (surplus : Nat) (s : ExpandState) : ExpandState → Prop where
  | intro (reader : Reader) (depth executed : Nat) : s.document.reader.Aligned reader →
      reader.rest = s.rest → depth ≤ s.document.depth →
      s.document.executed = executed + surplus →
      Displaced surplus s (s.displaced reader depth executed)

variable {α β : Type} {surplus : Nat} {s s' : ExpandState}

namespace Displaced

variable (h : Displaced surplus s s')
include h

theorem rest : s'.rest = s.rest := by
  obtain ⟨reader, depth, executed, -, hRest, -, -⟩ := h
  exact hRest

theorem session : s'.session = s.session := by
  obtain ⟨reader, depth, executed, -, -, -, -⟩ := h
  rfl

/-- The displaced run has as many levels left at least. -/
theorem depth_le : s'.document.depth ≤ s.document.depth := by
  obtain ⟨reader, depth, executed, -, -, hDepth, -⟩ := h
  exact hDepth

/-- Rows keep their indentation. -/
theorem indent : s'.document.reader.indent = s.document.reader.indent := by
  obtain ⟨reader, depth, executed, hAligned, hRest, -, -⟩ := h
  change Text.indentOf (reader.row ++ reader.rest) = Text.indentOf (s.document.reader.row ++ s.rest)
  rw [hRest, hAligned]

theorem advance (count : Nat) : Displaced surplus (s.advance count) (s'.advance count) := by
  obtain ⟨reader, depth, executed, hAligned, hRest, hDepth, hExecuted⟩ := h
  refine .intro (reader.advance count) depth executed (hAligned.advance_same hRest count) ?_
    hDepth hExecuted
  rw [Reader.rest_advance, hRest, s.rest_advance]

theorem withEngine (engine : AutoBreak) :
    Displaced surplus (s.withEngine engine) (s'.withEngine engine) := by
  obtain ⟨reader, depth, executed, hAligned, hRest, hDepth, hExecuted⟩ := h
  exact .intro reader depth executed hAligned hRest hDepth hExecuted

theorem engine : s'.engine = s.engine := by
  obtain ⟨reader, depth, executed, -, -, -, -⟩ := h
  rfl

theorem withDepth {depth depth' : Nat} (hDepth : depth' ≤ depth) :
    Displaced surplus (s.withDepth depth) (s'.withDepth depth') := by
  obtain ⟨reader, depth, executed, hAligned, hRest, -, hExecuted⟩ := h
  exact .intro reader depth' executed hAligned hRest hDepth hExecuted

theorem addExecuted (count : Nat) :
    Displaced surplus (s.update fun document => { document with executed := document.executed + count })
      (s'.update fun document => { document with executed := document.executed + count }) := by
  obtain ⟨reader, depth, executed, hAligned, hRest, hDepth, hExecuted⟩ := h
  refine .intro reader depth (executed + count) hAligned hRest hDepth ?_
  change s.document.executed + count = executed + count + surplus
  omega

/-- In another session, which is the same for both. -/
theorem withSession (session : Session) :
    Displaced surplus { s with session } { s' with session } := by
  obtain ⟨reader, depth, executed, hAligned, hRest, hDepth, hExecuted⟩ := h
  exact .intro reader depth executed hAligned hRest hDepth hExecuted

end Displaced

/-- The second state is in the same session and directory as the first, for the same target,
and not deeper, whatever there is to read. -/
structure Alongside (s s' : ExpandState) : Prop where
  session : s'.session = s.session
  path : s'.document.path = s.document.path
  target : s'.document.target = s.document.target
  depth_le : s'.document.depth ≤ s.document.depth

/-- What stands alongside does so in every session. -/
theorem Alongside.withSession (h : Alongside s s') (session : Session) :
    Alongside { s with session } { s' with session } :=
  ⟨rfl, h.path, h.target, h.depth_le⟩

/-- A computation whose results are the same at every such place. -/
def Portable (action : Expand α) : Prop :=
  ∀ surplus s s', Displaced surplus s s' → ∀ a t, outcome action s = (.ok a, t) →
    ∃ t', outcome action s' = (.ok a, t') ∧ Displaced surplus t t'

namespace Portable

theorem pure (a : α) : Portable (Pure.pure a : Expand α) := by
  intro surplus s s' h b t hOutcome
  cases hOutcome
  exact ⟨s', rfl, h⟩

theorem throw (failure : Failure) : Portable (MonadExcept.throw failure : Expand α) := by
  intro surplus s s' h b t hOutcome
  cases hOutcome

theorem fail (cause : ErrorCause) : Portable (Expand.fail cause : Expand α) := by
  intro surplus s s' h b t hOutcome
  cases hOutcome

theorem located (result : Except ErrorCause α) : Portable (Expand.located result) := by
  cases result with
  | ok a => exact pure a
  | error cause => exact fail cause

theorem bind {action : Expand α} {next : α → Expand β} (hAction : Portable action)
    (hNext : ∀ a, Portable (next a)) : Portable (action >>= next) := by
  intro surplus s s' h b t hOutcome
  obtain ⟨a, middle, hFirst, hRest⟩ := outcome_bind_ok hOutcome
  obtain ⟨middle', hFirst', hMiddle⟩ := hAction _ _ _ h _ _ hFirst
  rw [outcome_bind_of_ok hFirst']
  exact hNext a _ _ _ hMiddle _ _ hRest

theorem rest : Portable Expand.rest := by
  intro surplus s s' h text t hOutcome
  cases hOutcome
  exact ⟨s', by rw [outcome_rest, h.rest], h⟩

theorem registry : Portable Expand.registry := by
  intro surplus s s' h registry t hOutcome
  cases hOutcome
  exact ⟨s', by rw [outcome_registry, h.session], h⟩

theorem setRegistry (registry : Registry) : Portable (Expand.setRegistry registry) := by
  intro surplus s s' h u t hOutcome
  cases hOutcome
  refine ⟨_, rfl, ?_⟩
  have hSession : s'.session.loaded = s.session.loaded := by rw [h.session]
  change Displaced surplus { s with session := ⟨registry, s.session.loaded⟩ }
    { s' with session := ⟨registry, s'.session.loaded⟩ }
  rw [hSession]
  exact h.withSession _

/-- What a computation uses of a document is often the same in both. -/
theorem bindDocument {next : DocumentState → Expand α}
    (hSame : ∀ document reader depth executed,
      next { document with reader := reader, depth := depth, executed := executed } = next document)
    (hNext : ∀ document, Portable (next document)) : Portable (Expand.document >>= next) := by
  intro surplus s s' h a t hOutcome
  rw [outcome_bind_of_ok (outcome_document s)] at hOutcome
  rw [outcome_bind_of_ok (outcome_document s')]
  have hNextSame : next s'.document = next s.document := by
    obtain ⟨reader, depth, executed, -, -, -, -⟩ := h
    exact hSame s.document reader depth executed
  rw [hNextSame]
  exact hNext s.document _ _ _ h _ _ hOutcome

/-- Only the indentation of the row is asked for, which is the same in both places. -/
theorem bindIndent {next : Nat → Expand α} (hNext : ∀ indent, Portable (next indent)) :
    Portable (Expand.document >>= fun document => next document.reader.indent) := by
  intro surplus s s' h a t hOutcome
  rw [outcome_bind_of_ok (outcome_document s)] at hOutcome
  rw [outcome_bind_of_ok (outcome_document s'), h.indent]
  exact hNext _ _ _ _ h _ _ hOutcome

theorem advance (count : Nat) : Portable (Expand.advance count) := by
  intro surplus s s' h u t hOutcome
  cases hOutcome
  exact ⟨_, rfl, h.advance count⟩

theorem advanceToEnd : Portable Expand.advanceToEnd := by
  intro surplus s s' h u t hOutcome
  cases hOutcome
  refine ⟨s'.advance s'.rest.length, rfl, ?_⟩
  rw [h.rest]
  exact h.advance s.rest.length

/-- The engines are the same and move alike. -/
theorem withAutoBreak (operation : AutoBreak → α × AutoBreak) :
    Portable (Expand.withAutoBreak operation) := by
  intro surplus s s' h a t hOutcome
  cases hOutcome
  refine ⟨_, ?_, h.withEngine (operation s.engine).2⟩
  rw [outcome_withAutoBreak, h.engine]

theorem addExecuted (count : Nat) : Portable (Expand.addExecuted count) := by
  intro surplus s s' h u t hOutcome
  cases hOutcome
  exact ⟨_, rfl, h.addExecuted count⟩

/-- What is portable is so while the engine is suspended. -/
theorem suspended {action : Expand α} (hAction : Portable action) :
    Portable (Expand.suspended action) := by
  intro surplus s s' h a t hOutcome
  obtain ⟨middle, hInner, rfl⟩ := suspended_ok hOutcome
  have hStart : Displaced surplus s.suspend s'.suspend := by
    unfold ExpandState.suspend
    rw [h.engine]
    exact h.withEngine _
  obtain ⟨middle', hInner', hMiddle⟩ := hAction _ _ _ hStart _ _ hInner
  refine ⟨middle'.resume s.engine.enabled, ?_, ?_⟩
  · rw [outcome_suspended, hInner', h.engine]
  · unfold ExpandState.resume
    rw [hMiddle.engine]
    exact hMiddle.withEngine _

/-- What fits on the one level fits on the other. -/
theorem deeper (env : Env) {action : Expand α} {next : α → Expand β} (hAction : Portable action)
    (hNext : ∀ a, Portable (next a)) :
    Portable (do
      Expand.descend env
      let a ← action
      Expand.ascend
      next a) := by
  intro surplus s s' h b t hOutcome
  have hDepth := h.depth_le
  rw [outcome_bind, outcome_descend] at hOutcome
  by_cases hLimit : env.options.maxDepth < s.document.depth + 1
  · rw [if_pos hLimit] at hOutcome
    cases hOutcome
  · rw [if_neg hLimit] at hOutcome
    dsimp only at hOutcome
    obtain ⟨a, middle, hInner, hRest⟩ := outcome_bind_ok hOutcome
    rw [outcome_bind_of_ok (outcome_ascend middle)] at hRest
    obtain ⟨middle', hInner', hMiddle⟩ :=
      hAction _ _ _ (h.withDepth (Nat.succ_le_succ hDepth)) _ _ hInner
    rw [outcome_bind, outcome_descend, if_neg (by omega)]
    dsimp only
    rw [outcome_bind_of_ok hInner', outcome_bind_of_ok (outcome_ascend middle')]
    exact hNext a _ _ _ (hMiddle.withDepth (Nat.sub_le_sub_right hMiddle.depth_le 1)) _ _ hRest

theorem mapM {action : β → Expand α} (hAction : ∀ b, Portable (action b)) (items : List β) :
    Portable (items.mapM action) := by
  induction items with
  | nil => exact pure _
  | cons item items ih =>
      rw [List.mapM_cons]
      exact (hAction item).bind fun _ => ih.bind fun _ => pure _

/-! Reading of scopes. -/

/-- A marker is found at the same distance. -/
theorem readPast (marker shown : String) : Portable (Expand.readPast marker shown) := by
  refine rest.bind fun text => ?_
  split
  · exact (advance _).bind fun _ => pure _
  · exact advanceToEnd.bind fun _ => fail _

theorem expectScopeBegin : Portable Expand.expectScopeBegin := by
  refine rest.bind fun text => ?_
  split
  · exact advance _
  · exact fail _

theorem verbatimScope : Portable Expand.verbatimScope :=
  expectScopeBegin.bind fun _ => readPast _ _

theorem emptyScope : Portable Expand.emptyScope := by
  refine rest.bind fun text => ?_
  split
  · exact (advance _).bind fun _ => pure _
  · exact pure _

theorem environmentBody (name : String) (indent : Nat) :
    Portable (Expand.environmentBody name indent) := by
  refine Portable.bind (rest.bind fun text => ?_) fun _ => (readPast _ _).bind fun _ => pure _
  split
  · exact pure _
  · exact fail _

theorem definitionBody (indent : Nat) : Portable (Expand.definitionBody indent) := by
  refine expectScopeBegin.bind fun _ => rest.bind fun text => ?_
  split
  · refine (readPast _ _).bind fun block => ?_
    dsimp only
    split
    · exact pure _
    · split
      · exact (fail _).bind fun _ => pure _
      · exact pure _
  · refine (readPast _ _).bind fun code => ?_
    dsimp only
    split
    · exact (fail _).bind fun _ => pure _
    · exact pure _

/-- A definition is the same wherever it stands. -/
theorem define (kind : MacroKind) : Portable (Expand.define kind) := by
  have hRest : ∀ indent, Portable (do
      let signature ← Expand.verbatimScope
      let declaration ← Expand.located (Declaration.parse kind signature.toList)
      let code ← Expand.definitionBody indent
      Expand.setRegistry
        (← Expand.located ((← Expand.registry).define (declaration.define kind code)))) :=
    fun indent => verbatimScope.bind fun _ => (located _).bind fun _ =>
      (definitionBody indent).bind fun _ => registry.bind fun _ =>
        (located _).bind fun _ => setRegistry _
  exact bindIndent hRest

/-! Blocks. What reads a block reads it in documents of its own as well. -/

section Block

variable {env : Env} {block : BlockReader} (hBlock : ∀ marker?, Portable (block marker?))
include hBlock

/-- A document is read to its end in both places. -/
theorem wholeDocument : Portable (Expand.wholeDocument block) :=
  (hBlock none).bind fun _ => (withAutoBreak _).bind fun _ => pure _

/-- A scope is read one level deeper, where the limit is no closer. -/
theorem parsedScope : Portable (Expand.parsedScope env block) :=
  expectScopeBegin.bind fun _ => deeper env (hBlock _) fun _ => pure _

theorem round (text : String) : Portable (Expand.round block text) := by
  intro surplus s s' h result t hOutcome
  obtain ⟨reader, depth, executed, hAligned, hRest, hDepth, hExecuted⟩ := id h
  rw [outcome_round] at hOutcome ⊢
  have hStart : Displaced 0 (s.withDocument (s.document.generated text))
      ((s.displaced reader depth executed).withDocument
        ((s.displaced reader depth executed).document.generated text)) :=
    .intro (Reader.ofText text) depth 0 (fun _ => rfl) rfl hDepth rfl
  generalize hRun : outcome (Expand.wholeDocument block) (s.withDocument _) = inner at hOutcome
  obtain ⟨_ | output, middle⟩ := inner
  · cases hOutcome
  · cases hOutcome
    obtain ⟨middle', hRun', hMiddle⟩ := wholeDocument hBlock _ _ _ hStart _ _ hRun
    obtain ⟨reader', depth', executed', -, -, -, hFired⟩ := hMiddle
    rw [hRun']
    have hSame : middle.document.executed = executed' := hFired
    refine ⟨_, by rw [hSame]; rfl, ?_⟩
    have hBack : Displaced surplus (middle.withDocument s.document)
        (middle.withDocument (s.displaced reader depth executed).document) :=
      .intro reader depth executed hAligned hRest hDepth hExecuted
    have hCounted := hBack.addExecuted middle.document.executed
    rw [hSame] at hCounted ⊢
    exact hCounted

theorem toFixpoint (rounds : Nat) (text : String) : Portable (Expand.toFixpoint block rounds text) := by
  induction rounds generalizing text with
  | zero => exact throw _
  | succ rounds ih =>
      refine (round hBlock text).bind fun result => ?_
      dsimp only
      split
      · exact pure _
      · exact ih _

/-! Libraries. Of the document that includes one, only the session comes back. -/

/-- A library is read in the same way at both places, and nothing else of them changes. -/
theorem onLibrary {source : Source} {text : String} {t : ExpandState}
    {result : String × DocumentState} (hAlongside : Alongside s s')
    (h : outcome (Expand.onDocument (s.document.library source text) (Expand.wholeDocument block)) s =
      (.ok result, t)) :
    t.document = s.document ∧ ∃ result',
      outcome (Expand.onDocument (s'.document.library source text) (Expand.wholeDocument block)) s' =
        (.ok result', { s' with session := t.session }) := by
  have hStart : Displaced 0 (s.withDocument (s.document.library source text))
      (s'.withDocument (s'.document.library source text)) := by
    obtain ⟨hSession, hPath, hTarget, hDepth⟩ := hAlongside
    obtain ⟨session, current⟩ := s'
    obtain rfl : session = s.session := hSession
    obtain ⟨file, path, reader, depth, executed, target, engine⟩ := current
    obtain rfl : target = s.document.target := hTarget
    exact .intro (Reader.ofText text) depth 0 (fun _ => rfl) rfl hDepth rfl
  rw [outcome_onDocument] at h ⊢
  generalize hRun : outcome (Expand.wholeDocument block) (s.withDocument _) = inner at h
  obtain ⟨_ | output, middle⟩ := inner
  · cases h
  · cases h
    obtain ⟨middle', hRun', hMiddle⟩ := wholeDocument hBlock _ _ _ hStart _ _ hRun
    refine ⟨rfl, (output, middle'.document), ?_⟩
    rw [hRun']
    dsimp only [ExpandState.withDocument]
    rw [hMiddle.session]

/-- A library is read as a document of its own, with the same level and target. -/
theorem readLibrary {path : String} {t : ExpandState} (hAlongside : Alongside s s')
    (h : outcome (Expand.readLibrary env block path) s = (.ok (), t)) :
    t.document = s.document ∧ outcome (Expand.readLibrary env block path) s' =
      (.ok (), { s' with session := t.session }) := by
  unfold Expand.readLibrary at h ⊢
  split at h
  · cases h
  · dsimp only at h ⊢
    split at h
    · cases h
    · rw [outcome_bind_of_ok (outcome_document s)] at h
      rw [outcome_bind_of_ok (outcome_document s')]
      obtain ⟨result, middle, hNested, hPure⟩ := outcome_bind_ok h
      cases hPure
      obtain ⟨hBack, result', hNested'⟩ := onLibrary hBlock hAlongside hNested
      exact ⟨hBack, outcome_bind_of_ok hNested'⟩

/-- A library is found from both places, as they are in one directory. -/
theorem includeAlongside {name : String} {t : ExpandState} (hAlongside : Alongside s s')
    (h : outcome (Expand.includeLibrary env block name) s = (.ok (), t)) :
    t.document = s.document ∧ outcome (Expand.includeLibrary env block name) s' =
      (.ok (), { s' with session := t.session }) := by
  unfold Expand.includeLibrary at h ⊢
  rw [outcome_bind_of_ok (outcome_document s)] at h
  rw [outcome_bind_of_ok (outcome_document s'), hAlongside.path]
  dsimp only at h ⊢
  split at h
  · cases h
  · rename_i path location hFound
    rw [outcome_bind, outcome_markLoaded] at h ⊢
    rw [hAlongside.session]
    by_cases hLoaded : s.session.loaded.contains location
    · rw [if_pos hLoaded] at h ⊢
      cases h
      exact ⟨rfl, by rw [← hAlongside.session]; rfl⟩
    · rw [if_neg hLoaded] at h ⊢
      have hMarked := readLibrary hBlock
        (hAlongside.withSession { s.session with loaded := location :: s.session.loaded }) h
      exact hMarked

theorem includeLibrary (name : String) : Portable (Expand.includeLibrary env block name) := by
  intro surplus s s' h u t hOutcome
  obtain ⟨reader, depth, executed, hAligned, hRest, hDepth, hExecuted⟩ := h
  have hAlongside : Alongside s (s.displaced reader depth executed) := ⟨rfl, rfl, rfl, hDepth⟩
  obtain ⟨hBack, hOutcome'⟩ := includeAlongside hBlock hAlongside hOutcome
  refine ⟨_, hOutcome', ?_⟩
  obtain ⟨session, current⟩ := t
  obtain rfl : current = s.document := hBack
  exact .intro reader depth executed hAligned hRest hDepth hExecuted

/-! Invocations. -/

theorem argument (verbatim : Bool) : Portable (Expand.argument env block verbatim) := by
  unfold Expand.argument
  split
  · exact verbatimScope
  · exact parsedScope hBlock

/-- The scopes of an invocation are read alike. -/
theorem callArgs (user : UserMacro) (indent : Nat) :
    Portable (Expand.callArgs env block user indent) := by
  unfold Expand.callArgs
  split
  · exact emptyScope.bind fun _ => pure _
  · refine Portable.bind ?_ fun _ => pure _
    unfold Expand.arguments
    split
    · exact (mapM (argument hBlock) _).bind fun _ => pure _
    · exact (mapM (argument hBlock) _).bind fun _ => (environmentBody _ _).bind fun _ => pure _

theorem evaluate (rounds : Nat) (user : UserMacro) (values : List String) :
    Portable (Expand.evaluate env block rounds user values) := by
  unfold Expand.evaluate
  split
  · exact fail _
  · refine (located _).bind fun result => bindDocument (fun _ _ _ _ => rfl) fun current => ?_
    split
    · exact toFixpoint hBlock _ _
    · exact pure _

omit hBlock in
theorem settleParagraph (policy : BreakPolicy) : Portable (Expand.settleParagraph policy) :=
  (withAutoBreak _).bind fun _ => (withAutoBreak _).bind fun _ => pure _

/-- An invocation comes to the same in both places. -/
theorem invoke (rounds : Nat) (user : UserMacro) (invocation : String) :
    Portable (Expand.invoke env block rounds user invocation) := by
  have hRest : ∀ indent, Portable (do
      let marker ← Expand.settleParagraph user.signature.policy
      let args ← Expand.suspended (Expand.callArgs env block user indent)
      if user.signature.mode.appliesTo (← Expand.document).target then
        let text ← Expand.evaluate env block rounds user args.1.values
        return Expansion.fired (marker ++ text)
      else
        return .passthrough (marker ++ user.reemit invocation args.1 args.2)) := by
    intro indent
    refine (settleParagraph _).bind fun marker => (suspended (callArgs hBlock user indent)).bind
      fun args => bindDocument (fun _ _ _ _ => rfl) fun current => ?_
    split
    · exact (evaluate hBlock _ _ _).bind fun _ => pure _
    · exact pure _
  exact bindIndent hRest

theorem runBuiltin (builtin : Builtin) (invocation : String) :
    Portable (Expand.runBuiltin env block builtin invocation) := by
  cases builtin with
  | escape => exact fail _
  | escapedChar char =>
      exact (settleParagraph _).bind fun _ =>
        bindDocument (fun _ _ _ _ => rfl) fun _ => pure _
  | comment => exact rest.bind fun _ => (advance _).bind fun _ => pure _
  | scopeBegin => exact fail _
  | scopeEnd => exact fail _
  | usePackage => exact verbatimScope.bind fun _ => (includeLibrary hBlock _).bind fun _ => pure _
  | newCommand => exact (define _).bind fun _ => pure _
  | newEnvironment => exact (define _).bind fun _ => pure _
  | environmentBegin => exact verbatimScope.bind fun _ => fail _
  | environmentEnd => exact fail _
  | paragraph =>
      exact (withAutoBreak _).bind fun _ => (suspended (parsedScope hBlock)).bind fun _ => pure _
  | math =>
      refine (settleParagraph _).bind fun _ => (readPast _ _).bind fun _ =>
        bindDocument (fun _ _ _ _ => rfl) fun current => ?_
      split <;> exact pure _

theorem runHandler (rounds : Nat) (handler : Handler) (invocation : String) :
    Portable (Expand.runHandler env block rounds handler invocation) := by
  cases handler with
  | builtin builtin => exact runBuiltin hBlock builtin invocation
  | user user => exact invoke hBlock rounds user invocation

/-- One level deeper, an invocation comes to the same. -/
theorem dispatch (rounds : Nat) (handler : Handler) (length : Nat) :
    Portable (Expand.dispatch env block rounds handler length) :=
  rest.bind fun _ => (advance _).bind fun _ =>
    deeper env (runHandler hBlock rounds handler _) fun _ => (addExecuted _).bind fun _ => pure _

omit hBlock in
theorem literal (c : Char) : Portable (Expand.literal c) :=
  (withAutoBreak _).bind fun _ => (advance 1).bind fun _ => pure _

theorem place (rounds : Nat) : Portable (Expand.place env block rounds) := by
  refine rest.bind fun text => ?_
  split
  · exact pure _
  · refine registry.bind fun registry => ?_
    split
    · exact dispatch hBlock rounds _ _
    · exact literal _

end Block

/-- The induction is on the fuel, and one step of it reads one place. -/
theorem block (env : Env) (fuel : Nat) (marker? : Option (List Char)) (output : String) :
    Portable (Expand.block env fuel marker? output) := by
  rw [block_eq_loop]
  induction fuel generalizing marker? output with
  | zero => exact throw _
  | succ fuel ih =>
      refine rest.bind fun text => ?_
      split
      · exact fail _
      · exact pure _
      · split
        · exact (advance _).bind fun _ => pure _
        · exact (place (fun marker? => ih marker? "") fuel).bind fun _ => ih _ _

/-- The run law: what is read up to a marker is the same wherever it stands. -/
theorem blockReader (env : Env) (fuel : Nat) (marker? : Option (List Char)) :
    Portable (Expand.blockReader env fuel marker?) :=
  block env fuel marker? ""

end Portable

end Expand

end MacroMarkup
