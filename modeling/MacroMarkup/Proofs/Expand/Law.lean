import MacroMarkup.Proofs.Expand.Place

/-! Laws of change. A reflexive and transitive relation between an earlier and a
later state that every primitive operation respects is respected by every
expansion, whether it succeeds or fails. What is left of it at a failure may
depend on the failure, and on what is known of the libraries. -/
namespace MacroMarkup

/-- What one operation of an expansion makes of the paragraph engine. -/
inductive AutoBreak.Move : AutoBreak → AutoBreak → Prop where
  | process (c : Char) (engine : AutoBreak) : Move engine (engine.process c).2
  | ensureOpen (reopen : Bool) (engine : AutoBreak) : Move engine (engine.ensureOpen reopen).2
  | close (engine : AutoBreak) : Move engine engine.close.2
  | flush (engine : AutoBreak) : Move engine engine.flush.2

/-- The start of a document that is read on behalf of another: a library of which
something is known, or generated text. -/
inductive DocumentState.Inner (known : Source → Prop) (current : DocumentState) :
    DocumentState → Prop where
  | library (source : Source) (text : String) : known source →
      Inner known current (current.library source text)
  | generated (text : String) : Inner known current (current.generated text)

namespace Expand

/-- What is known of every library that a run may find and read. -/
class KnownLibraries (known : Source → Prop) (env : Env) : Prop where
  readable : ∀ {base name path text : String} {location : List String},
    Library.resolve? env.files env.options base name = some (path, location) →
    env.files.readText path = .ok text → known (Source.ofFile path text)

instance (env : Env) : KnownLibraries (fun _ => True) env :=
  ⟨fun _ _ => trivial⟩

/-- A relation `R` between the states before and after every operation that reads text, and
one `E` that is left of it where such an operation fails. -/
structure ScanningLaw (R : ExpandState → ExpandState → Prop)
    (E : Failure → ExpandState → ExpandState → Prop) : Prop where
  refl (s : ExpandState) : R s s
  trans {s₁ s₂ s₃ : ExpandState} : R s₁ s₂ → R s₂ s₃ → R s₁ s₃
  failing (cause : ErrorCause) {s s' : ExpandState} : R s s' →
    E (.error (s'.document.error cause)) s s'
  following (failure : Failure) {s₁ s₂ s₃ : ExpandState} : R s₁ s₂ → E failure s₂ s₃ →
    E failure s₁ s₃
  reading (s : ExpandState) (count : Nat) : R s (s.advance count)

/-- Such relations for the operations that add to the session as well. -/
structure ReadingLaw (R : ExpandState → ExpandState → Prop)
    (E : Failure → ExpandState → ExpandState → Prop) : Prop extends ScanningLaw R E where
  defining (s : ExpandState) (kind : MacroKind) (text : List Char) (declaration : Declaration)
    (code : String) (registry : Registry) : Declaration.parse kind text = .ok declaration →
    s.session.registry.define (declaration.define kind code) = .ok registry →
    R s (s.withRegistry registry)
  loading (s : ExpandState) (location : List String) :
    R s { s with session := { s.session with loaded := location :: s.session.loaded } }

/-- Such relations for every operation there is. An error in generated text is taken to
the place reached in the document that it is generated for. -/
structure FailureLaw (known : Source → Prop) (R : ExpandState → ExpandState → Prop)
    (E : Failure → ExpandState → ExpandState → Prop) : Prop extends ReadingLaw R E where
  exhausted {s s' : ExpandState} : R s s' → E .outOfFuel s s'
  refused {source : Source} {error : LocatedError} {s s' : ExpandState} : known source →
    FrontMatter.extract source = .error error → R s s' → E (.error error) s s'
  moving (s : ExpandState) (engine : AutoBreak) : AutoBreak.Move s.engine engine →
    R s (s.withEngine engine)
  suspending (s s' : ExpandState) : R s.suspend s' → R s (s'.resume s.engine.enabled)
  suspendingFailed (failure : Failure) (s s' : ExpandState) : E failure s.suspend s' →
    E failure s (s'.resume s.engine.enabled)
  scoping (s s' : ExpandState) : R (s.withDepth (s.document.depth + 1)) s' →
    R s (s'.withDepth (s'.document.depth - 1))
  scopingFailed (failure : Failure) (s s' : ExpandState) :
    E failure (s.withDepth (s.document.depth + 1)) s' → E failure s s'
  counting (s : ExpandState) (count : Nat) :
    R s (s.update fun document => { document with executed := document.executed + count })
  nesting (s s' : ExpandState) (other : DocumentState) : s.document.Inner known other →
    R (s.withDocument other) s' → R s (s'.withDocument s.document)
  includingFailed (failure : Failure) (s s' : ExpandState) (source : Source) (text : String) :
    known source → E failure (s.withDocument (s.document.library source text)) s' →
    E failure s (s'.withDocument s.document)
  generatingFailed (failure : Failure) (s s' : ExpandState) (text : String) :
    E failure (s.withDocument (s.document.generated text)) s' →
    E (relocate s.document failure) s (s'.withDocument s.document)

/-- A law of which the same is left at every failure, whatever the libraries are. -/
abbrev Law (R E : ExpandState → ExpandState → Prop) : Prop :=
  FailureLaw (fun _ => True) R fun _ => E

/-- What a law says of one outcome. -/
def Kept {α : Type} (R : ExpandState → ExpandState → Prop)
    (E : Failure → ExpandState → ExpandState → Prop) (s : ExpandState)
    (result : Except Failure α × ExpandState) : Prop :=
  match result.1 with
  | .ok _ => R s result.2
  | .error failure => E failure s result.2

/-- A computation that a law holds across. -/
def Obeys {α : Type} (R : ExpandState → ExpandState → Prop)
    (E : Failure → ExpandState → ExpandState → Prop) (action : Expand α) : Prop :=
  ∀ s, Kept R E s (outcome action s)

/-- A computation across which the same is kept at every failure. -/
abbrev Keeps {α : Type} (R E : ExpandState → ExpandState → Prop) (action : Expand α) : Prop :=
  Obeys R (fun _ => E) action

/-- What a success keeps. -/
theorem Obeys.ok {α : Type} {R : ExpandState → ExpandState → Prop}
    {E : Failure → ExpandState → ExpandState → Prop} {action : Expand α}
    (h : Obeys R E action) {s s' : ExpandState} {a : α} (hOutcome : outcome action s = (.ok a, s')) :
    R s s' := by
  have hKept := h s
  rw [hOutcome] at hKept
  exact hKept

/-- What a failure keeps. -/
theorem Obeys.error {α : Type} {R : ExpandState → ExpandState → Prop}
    {E : Failure → ExpandState → ExpandState → Prop} {action : Expand α}
    (h : Obeys R E action) {s s' : ExpandState} {failure : Failure}
    (hOutcome : outcome action s = (.error failure, s')) : E failure s s' := by
  have hKept := h s
  rw [hOutcome] at hKept
  exact hKept

/-- Where a law makes no difference between success and failure. -/
theorem Obeys.always {α : Type} {R : ExpandState → ExpandState → Prop} {action : Expand α}
    (h : Keeps R R action) {s s' : ExpandState} {result : Except Failure α}
    (hOutcome : outcome action s = (result, s')) : R s s' := by
  have hKept := h s
  rw [hOutcome] at hKept
  cases result <;> exact hKept

/-- Two laws at once. -/
theorem Law.and {R E R' E' : ExpandState → ExpandState → Prop} (law : Law R E) (law' : Law R' E') :
    Law (fun s s' => R s s' ∧ R' s s') (fun s s' => E s s' ∧ E' s s') where
  refl s := ⟨law.refl s, law'.refl s⟩
  trans h h' := ⟨law.trans h.1 h'.1, law'.trans h.2 h'.2⟩
  failing cause _ _ h := ⟨law.failing cause h.1, law'.failing cause h.2⟩
  exhausted h := ⟨law.exhausted h.1, law'.exhausted h.2⟩
  refused hKnown hRefused h := ⟨law.refused hKnown hRefused h.1, law'.refused hKnown hRefused h.2⟩
  following failure _ _ _ h h' :=
    ⟨law.following failure h.1 h'.1, law'.following failure h.2 h'.2⟩
  reading s count := ⟨law.reading s count, law'.reading s count⟩
  moving s engine h := ⟨law.moving s engine h, law'.moving s engine h⟩
  suspending s s' h := ⟨law.suspending s s' h.1, law'.suspending s s' h.2⟩
  suspendingFailed failure s s' h :=
    ⟨law.suspendingFailed failure s s' h.1, law'.suspendingFailed failure s s' h.2⟩
  scoping s s' h := ⟨law.scoping s s' h.1, law'.scoping s s' h.2⟩
  scopingFailed failure s s' h :=
    ⟨law.scopingFailed failure s s' h.1, law'.scopingFailed failure s s' h.2⟩
  counting s count := ⟨law.counting s count, law'.counting s count⟩
  defining s kind text declaration code registry h h' :=
    ⟨law.defining s kind text declaration code registry h h',
      law'.defining s kind text declaration code registry h h'⟩
  loading s location := ⟨law.loading s location, law'.loading s location⟩
  nesting s s' other hInner h := ⟨law.nesting s s' other hInner h.1, law'.nesting s s' other hInner h.2⟩
  includingFailed failure s s' source text hKnown h :=
    ⟨law.includingFailed failure s s' source text hKnown h.1,
      law'.includingFailed failure s s' source text hKnown h.2⟩
  generatingFailed failure s s' text h :=
    ⟨law.generatingFailed failure s s' text h.1, law'.generatingFailed failure s s' text h.2⟩

namespace ScanningLaw

variable {α β : Type} {R : ExpandState → ExpandState → Prop}
  {E : Failure → ExpandState → ExpandState → Prop} (law : ScanningLaw R E)
include law

theorem pure (a : α) : Obeys R E (Pure.pure a : Expand α) :=
  fun s => law.refl s

/-- From one state on: the first computation keeps the law there, the second everywhere. -/
theorem bindAt {action : Expand α} {next : α → Expand β} {s : ExpandState}
    (hAction : Kept R E s (outcome action s)) (hNext : ∀ a, Obeys R E (next a)) :
    Kept R E s (outcome (action >>= next) s) := by
  rw [outcome_bind]
  generalize outcome action s = result at hAction ⊢
  obtain ⟨_ | a, middle⟩ := result
  · exact hAction
  · have hRest := hNext a middle
    dsimp only
    generalize outcome (next a) middle = result at hRest ⊢
    obtain ⟨_ | b, s'⟩ := result
    · exact law.following _ hAction hRest
    · exact law.trans hAction hRest

theorem bind {action : Expand α} {next : α → Expand β} (hAction : Obeys R E action)
    (hNext : ∀ a, Obeys R E (next a)) : Obeys R E (action >>= next) :=
  fun s => law.bindAt (hAction s) hNext

theorem document : Obeys R E Expand.document :=
  fun s => law.refl s

theorem registry : Obeys R E Expand.registry :=
  fun s => law.refl s

theorem rest : Obeys R E Expand.rest :=
  fun s => law.refl s

theorem fail (cause : ErrorCause) : Obeys R E (Expand.fail cause : Expand α) :=
  fun s => law.failing cause (law.refl s)

theorem located (result : Except ErrorCause α) : Obeys R E (Expand.located result) := by
  cases result with
  | ok a => exact law.pure a
  | error cause => exact law.fail cause

/-- What follows a result may depend on where that comes from. -/
theorem locatedBind {result : Except ErrorCause α} {next : α → Expand β}
    (hNext : ∀ a, result = .ok a → Obeys R E (next a)) :
    Obeys R E (Expand.located result >>= next) := by
  intro s
  rw [outcome_bind, outcome_located]
  cases result with
  | ok a => exact hNext a rfl s
  | error cause => exact law.failing cause (law.refl s)

theorem advance (count : Nat) : Obeys R E (Expand.advance count) :=
  fun s => law.reading s count

theorem advanceToEnd : Obeys R E Expand.advanceToEnd :=
  fun s => law.reading s s.rest.length

theorem mapM {action : β → Expand α} (hAction : ∀ b, Obeys R E (action b)) (items : List β) :
    Obeys R E (items.mapM action) := by
  induction items with
  | nil => exact law.pure _
  | cons item items ih =>
      rw [List.mapM_cons]
      exact law.bind (hAction item) fun _ => law.bind ih fun _ => law.pure _

/-! Reading of scopes. -/

/-- Reading to a marker only advances, to the end if there is none. -/
theorem readPast (marker shown : String) : Obeys R E (Expand.readPast marker shown) := by
  refine law.bind law.rest fun text => ?_
  split
  · exact law.bind (law.advance _) fun _ => law.pure _
  · exact law.bind law.advanceToEnd fun _ => law.fail _

theorem expectScopeBegin : Obeys R E Expand.expectScopeBegin := by
  refine law.bind law.rest fun text => ?_
  split
  · exact law.advance _
  · exact law.fail _

theorem verbatimScope : Obeys R E Expand.verbatimScope :=
  law.bind law.expectScopeBegin fun _ => law.readPast _ _

theorem emptyScope : Obeys R E Expand.emptyScope := by
  refine law.bind law.rest fun text => ?_
  split
  · exact law.bind (law.advance _) fun _ => law.pure _
  · exact law.pure _

theorem expectLineBreak (cause : ErrorCause) : Obeys R E (Expand.expectLineBreak cause) := by
  refine law.bind law.rest fun text => ?_
  split
  · exact law.pure _
  · exact law.fail _

theorem environmentBody (name : String) (indent : Nat) :
    Obeys R E (Expand.environmentBody name indent) :=
  law.bind (law.expectLineBreak _) fun _ => law.bind (law.readPast _ _) fun _ => law.pure _

/-! Definitions. -/

/-- A body is read in one of two ways, and both only advance. -/
theorem definitionBody (indent : Nat) : Obeys R E (Expand.definitionBody indent) := by
  refine law.bind law.expectScopeBegin fun _ => law.bind law.rest fun text => ?_
  split
  · refine law.bind (law.readPast _ _) fun block => ?_
    dsimp only
    split
    · exact law.pure _
    · split
      · exact law.bind (law.fail _) fun _ => law.pure _
      · exact law.pure _
  · refine law.bind (law.readPast _ _) fun code => ?_
    dsimp only
    split
    · exact law.bind (law.fail _) fun _ => law.pure _
    · exact law.pure _

end ScanningLaw

namespace ReadingLaw

variable {α β : Type} {R : ExpandState → ExpandState → Prop}
  {E : Failure → ExpandState → ExpandState → Prop} (law : ReadingLaw R E)
include law

/-- A definition is added to the registry at hand. -/
theorem register {kind : MacroKind} {text : List Char} {declaration : Declaration}
    (hParse : Declaration.parse kind text = .ok declaration) (code : String) :
    Obeys R E (do
      Expand.setRegistry
        (← Expand.located ((← Expand.registry).define (declaration.define kind code)))) := by
  intro s
  rw [outcome_bind_of_ok (outcome_registry s), outcome_bind, outcome_located]
  generalize hDefine : s.session.registry.define (declaration.define kind code) = defined
  cases defined with
  | error cause => exact law.failing cause (law.refl s)
  | ok registry => exact law.defining s kind text declaration code registry hParse hDefine

/-- A definition reads on, and then merges what it has read. -/
theorem define (kind : MacroKind) : Obeys R E (Expand.define kind) := by
  exact law.bind law.document fun current => law.bind law.verbatimScope fun signature =>
    law.locatedBind fun declaration hParse => law.bind (law.definitionBody _) fun code =>
      law.register hParse code

theorem markLoaded (location : List String) : Obeys R E (Expand.markLoaded location) := by
  intro s
  rw [outcome_markLoaded]
  split
  · exact law.refl s
  · exact law.loading s location

end ReadingLaw

namespace FailureLaw

variable {α β : Type} {known : Source → Prop} {R : ExpandState → ExpandState → Prop}
  {E : Failure → ExpandState → ExpandState → Prop} (law : FailureLaw known R E)
include law

theorem exhaust : Obeys R E (MonadExcept.throw .outOfFuel : Expand α) :=
  fun s => law.exhausted (law.refl s)

theorem withAutoBreak {operation : AutoBreak → α × AutoBreak}
    (hMove : ∀ engine, AutoBreak.Move engine (operation engine).2) :
    Obeys R E (Expand.withAutoBreak operation) :=
  fun s => law.moving s _ (hMove s.engine)

/-- The engine is suspended and resumed, which the law allows for. -/
theorem suspended {action : Expand α} (hAction : Obeys R E action) :
    Obeys R E (Expand.suspended action) := by
  intro s
  have hInner := hAction s.suspend
  rw [outcome_suspended]
  generalize outcome action s.suspend = result at hInner ⊢
  obtain ⟨_ | a, s'⟩ := result
  · exact law.suspendingFailed _ s s' hInner
  · exact law.suspending s s' hInner

/-- What happens one level deeper, and on the level at hand afterwards. -/
theorem deeper (env : Env) {action : Expand α} {next : α → Expand β} (hAction : Obeys R E action)
    (hNext : ∀ a, Obeys R E (next a)) :
    Obeys R E (do
      Expand.descend env
      let a ← action
      Expand.ascend
      next a) := by
  intro s
  rw [outcome_bind, outcome_descend]
  by_cases hLimit : env.options.maxDepth < s.document.depth + 1
  · rw [if_pos hLimit]
    have hFailed := law.failing (.recursionLimitExceeded env.options.maxDepth)
      (law.refl (s.withDepth (s.document.depth + 1)))
    exact law.scopingFailed _ s _ hFailed
  · rw [if_neg hLimit]
    dsimp only
    have hInner := hAction (s.withDepth (s.document.depth + 1))
    rw [outcome_bind]
    generalize outcome action _ = result at hInner ⊢
    obtain ⟨_ | a, s'⟩ := result
    · exact law.scopingFailed _ s s' hInner
    · dsimp only
      rw [outcome_bind_of_ok (outcome_ascend s')]
      have hLevel : R s (s'.withDepth (s'.document.depth - 1)) := law.scoping s s' hInner
      have hRest := hNext a (s'.withDepth (s'.document.depth - 1))
      generalize outcome (next a) _ = result at hRest ⊢
      obtain ⟨_ | b, s''⟩ := result
      · exact law.following _ hLevel hRest
      · exact law.trans hLevel hRest

theorem addExecuted (count : Nat) : Obeys R E (Expand.addExecuted count) :=
  fun s => law.counting s count

theorem wholeDocument {block : BlockReader} (hBlock : ∀ marker?, Obeys R E (block marker?)) :
    Obeys R E (Expand.wholeDocument block) :=
  law.bind (hBlock none) fun _ =>
    law.bind (law.withAutoBreak AutoBreak.Move.close) fun _ => law.pure _

/-- A scope enters a level and leaves it again. -/
theorem parsedScope (env : Env) {block : BlockReader} (hBlock : ∀ marker?, Obeys R E (block marker?)) :
    Obeys R E (Expand.parsedScope env block) :=
  law.bind law.expectScopeBegin fun _ => law.deeper env (hBlock _) fun _ => law.pure _

/-! Libraries. -/

/-- A library is read in a document of its own. -/
theorem library {action : Expand α} (hAction : Obeys R E action) (s : ExpandState)
    {source : Source} (hKnown : known source) (text : String) :
    Kept R E s (outcome (Expand.onDocument (s.document.library source text) action) s) := by
  have hNested := hAction (s.withDocument (s.document.library source text))
  rw [outcome_onDocument]
  generalize outcome action (s.withDocument (s.document.library source text)) = result at hNested ⊢
  obtain ⟨failure | a, s'⟩ := result
  · exact law.includingFailed failure s s' source text hKnown hNested
  · exact law.nesting s s' _ (.library source text hKnown) hNested

/-- A library is read on a document of its own, which the law allows for if its source is
known. -/
theorem readLibrary (env : Env) {block : BlockReader}
    (hBlock : ∀ marker?, Obeys R E (block marker?)) {path : String}
    (hKnown : ∀ {text}, env.files.readText path = .ok text → known (Source.ofFile path text)) :
    Obeys R E (Expand.readLibrary env block path) := by
  unfold Expand.readLibrary
  split
  · exact law.fail _
  · rename_i text hText
    dsimp only
    split
    · rename_i error hRefused
      exact fun s => law.refused (hKnown hText) hRefused (law.refl s)
    · rename_i body _
      intro s
      rw [outcome_bind_of_ok (outcome_document s)]
      exact law.bindAt (law.library (law.wholeDocument hBlock) s (hKnown hText) body)
        fun _ => law.pure _

/-- An inclusion marks its file before it is read. -/
theorem includeLibrary (env : Env) [KnownLibraries known env] {block : BlockReader}
    (hBlock : ∀ marker?, Obeys R E (block marker?)) (name : String) :
    Obeys R E (Expand.includeLibrary env block name) := by
  refine law.bind law.document fun current => ?_
  dsimp only
  split
  · exact law.fail _
  · rename_i hFound
    refine law.bind (law.markLoaded _) fun isNew => ?_
    split
    · exact law.readLibrary env hBlock (KnownLibraries.readable hFound)
    · exact law.pure _

/-! Invocations. -/

theorem round {block : BlockReader} (hBlock : ∀ marker?, Obeys R E (block marker?)) (text : String) :
    Obeys R E (Expand.round block text) := by
  intro s
  unfold Expand.round
  rw [outcome_bind_of_ok (outcome_document s)]
  refine law.bindAt ?_ fun _ => law.bind (law.addExecuted _) fun _ => law.pure _
  have hNested := law.wholeDocument hBlock (s.withDocument (s.document.generated text))
  have hGenerated : { DocumentState.start s.document.file s.document.path text s.document.target with
      depth := s.document.depth, autobreak := AutoBreak.disabled s.document.target } =
        s.document.generated text := rfl
  rw [outcome_tryCatch, outcome_onDocument, hGenerated]
  generalize outcome (Expand.wholeDocument block) _ = result at hNested ⊢
  obtain ⟨failure | output, s'⟩ := result
  · exact law.generatingFailed failure s s' text hNested
  · exact law.nesting s s' _ (.generated text) hNested

theorem toFixpoint {block : BlockReader} (hBlock : ∀ marker?, Obeys R E (block marker?))
    (rounds : Nat) (text : String) : Obeys R E (Expand.toFixpoint block rounds text) := by
  induction rounds generalizing text with
  | zero => exact law.exhaust
  | succ rounds ih =>
      refine law.bind (law.round hBlock text) fun result => ?_
      dsimp only
      split
      · exact law.pure _
      · exact ih _

theorem argument (env : Env) {block : BlockReader} (hBlock : ∀ marker?, Obeys R E (block marker?))
    (verbatim : Bool) : Obeys R E (Expand.argument env block verbatim) := by
  unfold Expand.argument
  split
  · exact law.verbatimScope
  · exact law.parsedScope env hBlock

/-- An invocation reads its scopes one after the other, and then its body. -/
theorem callArgs (env : Env) {block : BlockReader} (hBlock : ∀ marker?, Obeys R E (block marker?))
    (user : UserMacro) (indent : Nat) : Obeys R E (Expand.callArgs env block user indent) := by
  unfold Expand.callArgs
  split
  · exact law.bind law.emptyScope fun _ => law.pure _
  · refine law.bind ?_ fun _ => law.pure _
    unfold Expand.arguments
    split
    · exact law.bind (law.mapM (law.argument env hBlock) _) fun _ => law.pure _
    · exact law.bind (law.mapM (law.argument env hBlock) _) fun _ =>
        law.bind (law.environmentBody _ _) fun _ => law.pure _

/-- An evaluation changes the state by its rounds alone. -/
theorem evaluate (env : Env) {block : BlockReader} (hBlock : ∀ marker?, Obeys R E (block marker?))
    (rounds : Nat) (user : UserMacro) (values : List String) :
    Obeys R E (Expand.evaluate env block rounds user values) := by
  unfold Expand.evaluate
  split
  · exact law.fail _
  · refine law.bind (law.located _) fun result => law.bind law.document fun current => ?_
    split
    · exact law.toFixpoint hBlock _ _
    · exact law.pure _

theorem settleParagraph (policy : BreakPolicy) : Obeys R E (Expand.settleParagraph policy) := by
  refine law.bind (law.withAutoBreak AutoBreak.Move.flush) fun _ =>
    law.bind (law.withAutoBreak fun engine => ?_) fun _ => law.pure _
  cases policy with
  | wrapInParagraph => exact .ensureOpen false engine
  | leaveParagraph => exact .close engine

/-- An invocation settles the paragraph, reads its arguments, and evaluates them. -/
theorem invoke (env : Env) {block : BlockReader} (hBlock : ∀ marker?, Obeys R E (block marker?))
    (rounds : Nat) (user : UserMacro) (invocation : String) :
    Obeys R E (Expand.invoke env block rounds user invocation) := by
  refine law.bind law.document fun current => law.bind (law.settleParagraph _) fun _ =>
    law.bind (law.suspended (law.callArgs env hBlock user _)) fun args => ?_
  refine law.bind law.document fun reached => ?_
  split
  · exact law.bind (law.evaluate env hBlock _ _ _) fun _ => law.pure _
  · exact law.pure _

/-! Builtins, and the block loop. -/

theorem runBuiltin (env : Env) [KnownLibraries known env] {block : BlockReader}
    (hBlock : ∀ marker?, Obeys R E (block marker?))
    (builtin : Builtin) (invocation : String) :
    Obeys R E (Expand.runBuiltin env block builtin invocation) := by
  cases builtin with
  | escape => exact law.fail _
  | escapedChar char =>
      exact law.bind (law.settleParagraph _) fun _ => law.bind law.document fun _ => law.pure _
  | comment => exact law.bind law.rest fun _ => law.bind (law.advance _) fun _ => law.pure _
  | scopeBegin => exact law.fail _
  | scopeEnd => exact law.fail _
  | usePackage =>
      exact law.bind law.verbatimScope fun _ =>
        law.bind (law.includeLibrary env hBlock _) fun _ => law.pure _
  | newCommand => exact law.bind (law.define _) fun _ => law.pure _
  | newEnvironment => exact law.bind (law.define _) fun _ => law.pure _
  | environmentBegin => exact law.bind law.verbatimScope fun _ => law.fail _
  | environmentEnd => exact law.fail _
  | paragraph =>
      exact law.bind (law.withAutoBreak (AutoBreak.Move.ensureOpen true)) fun _ =>
        law.bind (law.suspended (law.parsedScope env hBlock)) fun _ => law.pure _
  | math =>
      refine law.bind (law.settleParagraph _) fun _ => law.bind (law.readPast _ _) fun _ =>
        law.bind law.document fun _ => ?_
      split <;> exact law.pure _

theorem runHandler (env : Env) [KnownLibraries known env] {block : BlockReader}
    (hBlock : ∀ marker?, Obeys R E (block marker?))
    (rounds : Nat) (handler : Handler) (invocation : String) :
    Obeys R E (Expand.runHandler env block rounds handler invocation) := by
  cases handler with
  | builtin builtin => exact law.runBuiltin env hBlock builtin invocation
  | user user => exact law.invoke env hBlock rounds user invocation

/-- An invocation enters a level, runs its handler and counts its firings. -/
theorem dispatch (env : Env) [KnownLibraries known env] {block : BlockReader}
    (hBlock : ∀ marker?, Obeys R E (block marker?))
    (rounds : Nat) (handler : Handler) (length : Nat) :
    Obeys R E (Expand.dispatch env block rounds handler length) :=
  law.bind law.rest fun _ => law.bind (law.advance _) fun _ =>
    law.deeper env (law.runHandler env hBlock rounds handler _) fun _ =>
      law.bind (law.addExecuted _) fun _ => law.pure _

theorem literal (c : Char) : Obeys R E (Expand.literal c) :=
  law.bind (law.withAutoBreak (AutoBreak.Move.process c)) fun _ =>
    law.bind (law.advance 1) fun _ => law.pure _

/-- The step: one place keeps the law, if all blocks below it do. -/
theorem place (env : Env) [KnownLibraries known env] {block : BlockReader}
    (hBlock : ∀ marker?, Obeys R E (block marker?))
    (rounds : Nat) : Obeys R E (Expand.place env block rounds) := by
  refine law.bind law.rest fun text => ?_
  split
  · exact law.pure _
  · refine law.bind law.registry fun registry => ?_
    split
    · exact law.dispatch env hBlock rounds _ _
    · exact law.literal _

/-- The induction is on the fuel, and one step of it reads one place. -/
theorem loop {read : BlockReader → Nat → Expand String}
    (hRead : ∀ {block : BlockReader} (rounds : Nat), (∀ marker?, Obeys R E (block marker?)) →
      Obeys R E (read block rounds)) (fuel : Nat) (marker? : Option (List Char)) (output : String) :
    Obeys R E (Expand.loop read fuel marker? output) := by
  induction fuel generalizing marker? output with
  | zero => exact law.exhaust
  | succ fuel ih =>
      intro s
      by_cases hRest : s.rest = []
      · cases marker? with
        | none => rw [outcome_loop_atEnd read fuel output hRest]; exact law.refl s
        | some marker =>
            rw [outcome_loop_unterminated read fuel marker output hRest]
            exact law.failing _ (law.refl s)
      · by_cases hMarker : endsAt marker? s.rest
        · obtain ⟨marker, rfl, hPrefix⟩ := hMarker
          rw [outcome_loop_marker read fuel output hRest hPrefix]
          exact law.reading s _
        · rw [outcome_loop_place read fuel output hRest hMarker]
          exact law.bind (hRead fuel fun marker? => ih marker? "") (fun _ => ih _ _) s

/-- The run: by induction on the fuel, one place at a time. -/
theorem block (env : Env) [KnownLibraries known env] (fuel : Nat)
    (marker? : Option (List Char)) (output : String) :
    Obeys R E (Expand.block env fuel marker? output) := by
  rw [block_eq_loop]
  exact law.loop (fun rounds hBlock => law.place env hBlock rounds) fuel marker? output

/-- A whole document keeps the law. -/
theorem expandDocument (env : Env) [KnownLibraries known env] (fuel : Nat) :
    Obeys R E (Expand.expandDocument env fuel) :=
  law.wholeDocument fun marker? => law.block env fuel marker? ""

end FailureLaw

/-- A law that makes no difference between failures holds across each of them. -/
theorem Law.throw {α : Type} {R E : ExpandState → ExpandState → Prop} (law : Law R E)
    (failure : Failure) : Keeps R E (MonadExcept.throw failure : Expand α) :=
  fun s => law.exhausted (law.refl s)

end Expand

end MacroMarkup
