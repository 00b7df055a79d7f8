import MacroMarkup.Proofs.Expand.Growth
import MacroMarkup.Proofs.Expand.Run
import Mathlib.Logic.Relation

/-! The calls that the routines of an expansion make of one another, each with the state it
starts from. A failure passes from a call to the one that made it, and every failure comes
from a call of which all calls succeed. -/
namespace MacroMarkup

def Failure.cause? : Failure → Option ErrorCause
  | .error located => some located.cause
  | .outOfFuel => none

namespace Expand

/-- Reads the text of a library in a document of its own. -/
def readSource (block : BlockReader) (source : Source) : Expand Unit := do
  match FrontMatter.extract source with
  | .error error => throw (.error error)
  | .ok (_, body) =>
    let current ← document
    let library := DocumentState.start source.filename source.path body current.target
    let _ ← onDocument { library with depth := current.depth } (wholeDocument block)

/-- Reading a library is reading its file as a source. -/
theorem readLibrary_eq (env : Env) (block : BlockReader) (path : String) :
    readLibrary env block path =
      match env.files.readText path with
      | .error cause => fail (.io (path ++ ": " ++ cause.message))
      | .ok text => readSource block (Source.ofFile path text) := rfl

/-- The routines of an expansion that call one another. A library is included by its name,
and then its text is read. -/
inductive Routine where
  | block (marker? : Option (List Char))
  | document
  | scope
  | handler (handler : Handler) (invocation : String)
  | inclusion (name : String)
  | library (source : Source)
  | rounds (count : Nat) (text : String)
  | round (text : String)

/-- What a routine does. Of its result nothing is said. -/
def Routine.run (env : Env) (fuel : Nat) : Routine → Expand Unit
  | .block marker? => do
    let _ ← blockReader env fuel marker?
    return ()
  | .document => do
    let _ ← wholeDocument (blockReader env fuel)
    return ()
  | .scope => do
    let _ ← parsedScope env (blockReader env fuel)
    return ()
  | .handler called invocation => do
    let _ ← runHandler env (blockReader env fuel) fuel called invocation
    return ()
  | .inclusion name => includeLibrary env (blockReader env fuel) name
  | .library source => readSource (blockReader env fuel) source
  | .rounds count text => do
    let _ ← toFixpoint (blockReader env fuel) count text
    return ()
  | .round text => do
    let _ ← Expand.round (blockReader env fuel) text
    return ()

/-- A routine with the fuel that it is given and the state it starts from. -/
structure Call where
  routine : Routine
  fuel : Nat
  state : ExpandState

/-- How a call ends, and the state that it leaves. -/
def Call.ending (env : Env) (call : Call) : Except Failure Unit × ExpandState :=
  outcome (call.routine.run env call.fuel) call.state

def FailsFrom {α : Type} (action : Expand α) (s : ExpandState) (failure : Failure) : Prop :=
  (outcome action s).1 = .error failure

def Call.Fails (env : Env) (call : Call) (failure : Failure) : Prop :=
  FailsFrom (call.routine.run env call.fuel) call.state failure

/-- One call makes another: it comes to the state from which the other starts, and goes on
with what the other gives. -/
inductive Makes (env : Env) : Call → Call → Prop where
  /-- A block runs what the invocation at hand dispatches to, one level deeper. -/
  | dispatch {marker? : Option (List Char)} {fuel length : Nat} {handler : Handler}
      {s middle : ExpandState} : s.rest ≠ [] → ¬ endsAt marker? s.rest →
      s.session.registry.lookup? s.rest = some (length, handler) →
      outcome (descend env) (s.advance length) = (.ok (), middle) →
      Makes env ⟨.block marker?, fuel + 1, s⟩
        ⟨.handler handler (String.ofList (s.rest.take length)), fuel, middle⟩
  /-- Behind a place the block goes on. -/
  | further {marker? : Option (List Char)} {fuel : Nat} {piece : String} {s middle : ExpandState} :
      s.rest ≠ [] → ¬ endsAt marker? s.rest →
      outcome (place env (blockReader env fuel) fuel) s = (.ok piece, middle) →
      Makes env ⟨.block marker?, fuel + 1, s⟩ ⟨.block marker?, fuel, middle⟩
  | document {fuel : Nat} {s : ExpandState} :
      Makes env ⟨.document, fuel, s⟩ ⟨.block none, fuel, s⟩
  | scope {fuel : Nat} {s begun middle : ExpandState} :
      outcome expectScopeBegin s = (.ok (), begun) →
      outcome (descend env) begun = (.ok (), middle) →
      Makes env ⟨.scope, fuel, s⟩ ⟨.block (some Spelling.scopeEnd.toList), fuel, middle⟩
  | paragraph {invocation : String} {fuel : Nat} {s : ExpandState} :
      Makes env ⟨.handler (.builtin .paragraph) invocation, fuel, s⟩
        ⟨.scope, fuel, (s.withEngine (s.engine.ensureOpen true).2).suspend⟩
  | usePackage {invocation name : String} {fuel : Nat} {s middle : ExpandState} :
      outcome verbatimScope s = (.ok name, middle) →
      Makes env ⟨.handler (.builtin .usePackage) invocation, fuel, s⟩
        ⟨.inclusion (Text.trimString name), fuel, middle⟩
  /-- A macro reads its arguments one by one, those that are expanded as scopes. -/
  | argument {user : UserMacro} {invocation : String} {fuel : Nat} {before after : List Bool}
      {values : List String} {s middle : ExpandState} : user.scopes = before ++ false :: after →
      outcome (before.mapM (argument env (blockReader env fuel)))
        (s.withEngine (s.engine.settle user.signature.policy).2).suspend = (.ok values, middle) →
      Makes env ⟨.handler (.user user) invocation, fuel, s⟩ ⟨.scope, fuel, middle⟩
  /-- Behind its arguments a macro expands what the evaluator gives. -/
  | evaluation {user : UserMacro} {invocation text : String} {body : MacroBody}
      {fuel : Nat} {args : CallArgs × Bool} {s middle : ExpandState} :
      outcome (suspended (callArgs env (blockReader env fuel) user s.document.reader.indent))
        (s.withEngine (s.engine.settle user.signature.policy).2) = (.ok args, middle) →
      user.signature.mode.appliesTo middle.document.target = true →
      middle.document.target = .normalize →
      user.preferredBody? env.evaluator = some body →
      env.evaluator.evaluate user.name body args.1.values = .ok text →
      Makes env ⟨.handler (.user user) invocation, fuel, s⟩ ⟨.rounds fuel text, fuel, middle⟩
  /-- A library that was not read before is found and read. -/
  | library {name path text : String} {location : List String} {fuel : Nat}
      {s middle : ExpandState} :
      Library.resolve? env.files env.options (baseDirectory s.document.path) name =
        some (path, location) →
      outcome (markLoaded location) s = (.ok true, middle) →
      env.files.readText path = .ok text →
      Makes env ⟨.inclusion name, fuel, s⟩ ⟨.library (Source.ofFile path text), fuel, middle⟩
  | libraryText {source : Source} {headers : Yaml.Headers} {text : String} {fuel : Nat}
      {s : ExpandState} : FrontMatter.extract source = .ok (headers, text) →
      Makes env ⟨.library source, fuel, s⟩
        ⟨.document, fuel, s.withDocument (s.document.library source text)⟩
  | firstRound {count fuel : Nat} {text : String} {s : ExpandState} :
      Makes env ⟨.rounds (count + 1) text, fuel, s⟩ ⟨.round text, fuel, s⟩
  /-- A round that fired is followed by others. -/
  | furtherRounds {count fuel fired : Nat} {text output : String} {s middle : ExpandState} :
      outcome (round (blockReader env fuel) text) s = (.ok (output, fired), middle) → fired ≠ 0 →
      Makes env ⟨.rounds (count + 1) text, fuel, s⟩ ⟨.rounds count output, fuel, middle⟩
  | generated {text : String} {fuel : Nat} {s : ExpandState} :
      Makes env ⟨.round text, fuel, s⟩
        ⟨.document, fuel, s.withDocument (s.document.generated text)⟩

/-! A failure passes from a call to the one that made it. -/

section Failing

variable {α β : Type} {action : Expand α} {next : α → Expand β} {s middle : ExpandState}
  {failure : Failure}

/-- A first step that fails ends the computation. -/
theorem FailsFrom.bind (h : FailsFrom action s failure) : FailsFrom (action >>= next) s failure := by
  have hEnd : outcome action s = (.error failure, (outcome action s).2) := Prod.ext h rfl
  show (outcome (action >>= next) s).1 = _
  rw [outcome_bind_of_error hEnd]

/-- So does a second step behind a first one that succeeds. -/
theorem FailsFrom.behind {a : α} (hAction : outcome action s = (.ok a, middle))
    (h : FailsFrom (next a) middle failure) : FailsFrom (action >>= next) s failure := by
  show (outcome (action >>= next) s).1 = _
  rw [outcome_bind_of_ok hAction]
  exact h

/-- A computation whose result is only handed on fails as it does. -/
theorem failsFrom_return {f : α → β} :
    FailsFrom (do return f (← action)) s failure ↔ FailsFrom action s failure := by
  show (outcome (action >>= fun a => pure (f a)) s).1 = _ ↔ (outcome action s).1 = _
  rw [outcome_bind]
  generalize outcome action s = result
  obtain ⟨other | a, last⟩ := result
  · simp
  · exact ⟨nofun, nofun⟩

/-- In a list the first item that fails ends the computation. -/
theorem FailsFrom.mapM {action : β → Expand α} {before after : List β} {item : β} {values : List α}
    (hBefore : outcome (before.mapM action) s = (.ok values, middle))
    (h : FailsFrom (action item) middle failure) :
    FailsFrom ((before ++ item :: after).mapM action) s failure := by
  rw [List.mapM_append]
  apply FailsFrom.behind hBefore
  apply FailsFrom.bind
  rw [List.mapM_cons]
  exact h.bind

/-- A failure is not changed by suspending the engine. -/
theorem FailsFrom.suspended (h : FailsFrom action s.suspend failure) :
    FailsFrom (Expand.suspended action) s failure := by
  show (outcome (Expand.suspended action) s).1 = _
  rw [outcome_suspended]
  exact h

end Failing

/-- What becomes of a failure of a call that is made. Only a round takes it elsewhere. -/
def Call.passOn (call : Call) (failure : Failure) : Failure :=
  match call.routine with
  | .round _ => relocate call.state.document failure
  | _ => failure

/-- An error keeps its cause wherever it is reported. -/
theorem relocate_cause? (current : DocumentState) (failure : Failure) :
    (relocate current failure).cause? = failure.cause? := by
  cases failure with
  | outOfFuel => rfl
  | error located =>
      unfold relocate
      dsimp only
      split <;> rfl

/-- An error of the current file is reported at the place that the document has reached. -/
theorem relocate_same (current : DocumentState) {error : LocatedError}
    (hFile : error.file = current.file) (hPath : error.path = current.path) :
    relocate current (.error error) = .error (current.error error.cause) :=
  if_pos ⟨hFile, hPath⟩

theorem Call.cause?_passOn (call : Call) (failure : Failure) :
    (call.passOn failure).cause? = failure.cause? := by
  unfold Call.passOn
  split
  · exact relocate_cause? _ failure
  · rfl

variable {env : Env} {call inner : Call} {failure : Failure}

/-- An invocation fails as the first of its parsed scopes that fails. -/
theorem FailsFrom.callArgs {block : BlockReader} {user : UserMacro} {before after : List Bool}
    {values : List String} {s middle : ExpandState} (indent : Nat)
    (hScopes : user.scopes = before ++ false :: after)
    (hBefore : outcome (before.mapM (argument env block)) s = (.ok values, middle))
    (h : FailsFrom (parsedScope env block) middle failure) :
    FailsFrom (Expand.callArgs env block user indent) s failure := by
  have hRead : FailsFrom (user.scopes.mapM (argument env block)) s failure := by
    rw [hScopes]
    exact .mapM hBefore h
  have hSome : user.signature.verbatim.isEmpty = false := by
    unfold UserMacro.scopes at hScopes
    cases hFlags : user.signature.verbatim with
    | nil => cases hKind : user.kind <;> simp [hKind, hFlags] at hScopes
    | cons flag flags => rfl
  unfold Expand.callArgs
  rw [hSome, if_neg (by decide)]
  apply FailsFrom.bind
  unfold UserMacro.scopes at hRead
  unfold arguments
  cases hKind : user.kind with
  | command => exact .bind (by simpa [hKind] using hRead)
  | environment => exact .bind (by simpa [hKind] using hRead)

/-- Generated text is expanded in the normalizing pass. -/
theorem FailsFrom.evaluate {block : BlockReader} {rounds : Nat} {user : UserMacro}
    {body : MacroBody} {values : List String} {text : String} {s : ExpandState}
    (hBody : user.preferredBody? env.evaluator = some body)
    (hText : env.evaluator.evaluate user.name body values = .ok text)
    (hTarget : s.document.target = .normalize)
    (h : FailsFrom (toFixpoint block rounds text) s failure) :
    FailsFrom (Expand.evaluate env block rounds user values) s failure := by
  unfold Expand.evaluate
  rw [hBody]
  dsimp only
  rw [hText]
  apply FailsFrom.behind (outcome_located _ s)
  apply FailsFrom.behind (outcome_document s)
  rw [if_pos hTarget]
  exact h

/-- Whether a block fails does not depend on what was expanded before. -/
theorem failsFrom_block_output {fuel : Nat} {marker? : Option (List Char)} {output : String}
    {s : ExpandState} : FailsFrom (block env fuel marker? output) s failure ↔
      FailsFrom (blockReader env fuel marker?) s failure := by
  show (outcome (block env fuel marker? output) s).1 = _ ↔
    (outcome (block env fuel marker? "") s).1 = _
  rw [outcome_block_output]
  generalize outcome (block env fuel marker? "") s = result
  obtain ⟨other | text, last⟩ := result <;> simp

/-- A block fails where the place at hand does, and where the block behind it does. -/
theorem FailsFrom.blockReader {fuel : Nat} {marker? : Option (List Char)} {s : ExpandState}
    (hRest : s.rest ≠ []) (hEnds : ¬ endsAt marker? s.rest)
    (h : FailsFrom (place env (blockReader env fuel) fuel) s failure ∨ ∃ piece middle,
      outcome (place env (blockReader env fuel) fuel) s = (.ok piece, middle) ∧
        FailsFrom (Expand.blockReader env fuel marker?) middle failure) :
    FailsFrom (Expand.blockReader env (fuel + 1) marker?) s failure := by
  show (outcome (block env (fuel + 1) marker? "") s).1 = _
  rw [outcome_block_place env fuel "" hRest hEnds]
  obtain hPlace | ⟨piece, middle, hPlace, hLater⟩ := h
  · exact hPlace.bind
  · exact FailsFrom.behind hPlace (failsFrom_block_output.mpr hLater)

/-- Whatever its handler fails from, an invocation fails from. -/
theorem FailsFrom.dispatch {block : BlockReader} {rounds length : Nat} {handler : Handler}
    {s middle : ExpandState} (hDeeper : outcome (descend env) (s.advance length) = (.ok (), middle))
    (h : FailsFrom (runHandler env block rounds handler (String.ofList (s.rest.take length))) middle
      failure) :
    FailsFrom (Expand.dispatch env block rounds handler length) s failure := by
  apply FailsFrom.behind (outcome_rest s)
  apply FailsFrom.behind (outcome_advance length s)
  exact .behind hDeeper h.bind

/-- A round fails as its text does, with the error moved to the invocation. -/
theorem failsFrom_round {block : BlockReader} {text : String} {s : ExpandState} :
    FailsFrom (round block text) s failure ↔
      ∃ inner, FailsFrom (wholeDocument block) (s.withDocument (s.document.generated text)) inner ∧
        failure = relocate s.document inner := by
  unfold FailsFrom
  rw [outcome_round]
  generalize outcome (wholeDocument block) _ = result
  obtain ⟨other | output, last⟩ := result
  · simp [eq_comm]
  · simp

/-- A library whose headers can be read fails as its text does. -/
theorem failsFrom_readSource {block : BlockReader} {source : Source} {headers : Yaml.Headers}
    {text : String} {s : ExpandState} (hText : FrontMatter.extract source = .ok (headers, text)) :
    FailsFrom (readSource block source) s failure ↔
      FailsFrom (wholeDocument block) (s.withDocument (s.document.library source text)) failure := by
  unfold readSource
  rw [hText]
  dsimp only
  unfold FailsFrom
  rw [outcome_bind_of_ok (outcome_document s)]
  show FailsFrom (onDocument (s.document.library source text) (wholeDocument block) >>= fun _ =>
    pure ()) s failure ↔ _
  rw [failsFrom_return]
  unfold FailsFrom
  rw [outcome_onDocument]
  generalize outcome (wholeDocument block) _ = result
  obtain ⟨other | output, last⟩ := result <;> simp

/-- A failure of a call ends the call that made it. -/
theorem Makes.fails (h : Makes env call inner) (hInner : inner.Fails env failure) :
    call.Fails env (call.passOn failure) := by
  cases h with
  | dispatch hRest hEnds hFound hDeeper =>
      apply FailsFrom.bind
      apply FailsFrom.blockReader hRest hEnds (.inl _)
      show (outcome (place env _ _) _).1 = _
      rw [outcome_place_dispatch env _ _ hRest hFound]
      exact FailsFrom.dispatch hDeeper (failsFrom_return.mp hInner)
  | further hRest hEnds hPlace =>
      apply FailsFrom.bind
      exact .blockReader hRest hEnds (.inr ⟨_, _, hPlace, failsFrom_return.mp hInner⟩)
  | document =>
      apply FailsFrom.bind
      exact .bind (failsFrom_return.mp hInner)
  | scope hBegin hDeeper =>
      apply FailsFrom.bind
      exact .behind hBegin (.behind hDeeper (.bind (failsFrom_return.mp hInner)))
  | paragraph =>
      apply FailsFrom.bind
      exact .behind (outcome_withAutoBreak _ _) (.bind (.suspended (failsFrom_return.mp hInner)))
  | usePackage hName =>
      apply FailsFrom.bind
      exact .behind hName (.bind hInner)
  | argument hScopes hBefore =>
      apply FailsFrom.bind
      apply FailsFrom.behind (outcome_document _)
      apply FailsFrom.behind (outcome_settleParagraph _ _)
      apply FailsFrom.bind
      apply FailsFrom.suspended
      exact .callArgs _ hScopes hBefore (failsFrom_return.mp hInner)
  | evaluation hArgs hMode hTarget hBody hText =>
      apply FailsFrom.bind
      apply FailsFrom.behind (outcome_document _)
      apply FailsFrom.behind (outcome_settleParagraph _ _)
      apply FailsFrom.behind hArgs
      apply FailsFrom.behind (outcome_document _)
      rw [if_pos hMode]
      exact .bind (.evaluate hBody hText hTarget (failsFrom_return.mp hInner))
  | library hFound hNew hText =>
      apply FailsFrom.behind (outcome_document _)
      dsimp only
      rw [hFound]
      apply FailsFrom.behind hNew
      rw [if_pos rfl, readLibrary_eq, hText]
      exact hInner
  | libraryText hText => exact (failsFrom_readSource hText).mpr (failsFrom_return.mp hInner)
  | firstRound =>
      apply FailsFrom.bind
      exact .bind (failsFrom_return.mp hInner)
  | furtherRounds hRound hFired =>
      apply FailsFrom.bind
      apply FailsFrom.behind hRound
      dsimp only
      rw [if_neg hFired]
      exact failsFrom_return.mp hInner
  | generated =>
      apply FailsFrom.bind
      exact failsFrom_round.mpr ⟨failure, failsFrom_return.mp hInner, rfl⟩

/-! No chain of calls goes on for ever, so that each failure is raised somewhere. -/

/-- How long a chain of calls with the same fuel gets at most behind a call of this routine. -/
def Routine.rank (fuel : Nat) : Routine → Nat
  | .block _ => 0
  | .document => 1
  | .scope => 1
  | .round _ => 2
  | .library _ => 2
  | .inclusion _ => 3
  | .rounds count _ => 3 + count
  | .handler _ _ => 4 + fuel

def Call.rank (call : Call) : Nat × Nat :=
  (call.fuel, call.routine.rank call.fuel)

/-- A call has less fuel than the one that made it, or as much and a smaller rank. -/
theorem Makes.rank (h : Makes env call inner) :
    Prod.Lex (· < ·) (· < ·) inner.rank call.rank := by
  cases h with
  | dispatch => exact .left _ _ (Nat.lt_succ_self _)
  | further => exact .left _ _ (Nat.lt_succ_self _)
  | _ => exact .right _ (by simp only [Routine.rank]; omega)

/-- The calls of a run end: no call makes calls without end. -/
theorem makes_wellFounded (env : Env) : WellFounded fun inner call => Makes env call inner :=
  Subrelation.wf (fun h => Makes.rank h)
    (InvImage.wf Call.rank (Prod.lex Nat.lt_wfRel Nat.lt_wfRel).wf)

/-- A call comes to another, by any number of calls. -/
abbrev Reaches (env : Env) : Call → Call → Prop :=
  Relation.ReflTransGen (Makes env)

/-- A call fails, and none that it makes does. -/
def Call.Raises (env : Env) (call : Call) (failure : Failure) : Prop :=
  call.Fails env failure ∧ ∀ inner other, Makes env call inner → ¬ inner.Fails env other

/-- Every failure is raised by some call, with the same cause. The induction is on the calls
inside. -/
theorem Call.Fails.exists_raises (h : call.Fails env failure) :
    ∃ inner raised, Reaches env call inner ∧ inner.Raises env raised ∧
      raised.cause? = failure.cause? := by
  induction call using (makes_wellFounded env).induction generalizing failure with
  | _ call ih =>
    by_cases hInner : ∃ inner other, Makes env call inner ∧ inner.Fails env other
    · obtain ⟨inner, other, hMakes, hFails⟩ := hInner
      obtain ⟨last, raised, hReaches, hRaises, hCause⟩ := ih inner hMakes hFails
      have hSame : failure = call.passOn other :=
        Except.error.inj (h.symm.trans (hMakes.fails hFails))
      rw [hSame, call.cause?_passOn]
      exact ⟨last, raised, .head hMakes hReaches, hRaises, hCause⟩
    · refine ⟨call, failure, .refl, ⟨h, fun inner other hMakes hFails => ?_⟩, rfl⟩
      exact hInner ⟨inner, other, hMakes, hFails⟩

/-- Every error was raised by a call that this one reaches, with the same cause. -/
theorem Call.Fails.exists_raised {error : LocatedError} (h : call.Fails env (.error error)) :
    ∃ inner raised, Reaches env call inner ∧ inner.Raises env (.error raised) ∧
      raised.cause = error.cause := by
  obtain ⟨inner, failure, hReaches, hRaises, hSame⟩ := h.exists_raises
  cases failure with
  | outOfFuel => cases hSame
  | error raised => exact ⟨inner, raised, hReaches, hRaises, Option.some.inj hSame⟩

/-! What a call has from the one that makes it. -/

/-- A law holds across every routine. -/
theorem Law.run {R E : ExpandState → ExpandState → Prop} (law : Law R E) (env : Env) (fuel : Nat)
    (routine : Routine) : Keeps R E (routine.run env fuel) := by
  have hBlock : ∀ marker?, Keeps R E (blockReader env fuel marker?) :=
    fun marker? => law.block env fuel marker? ""
  cases routine with
  | block marker? => exact law.bind (hBlock marker?) fun _ => law.pure _
  | document => exact law.bind (law.wholeDocument hBlock) fun _ => law.pure _
  | scope => exact law.bind (law.parsedScope env hBlock) fun _ => law.pure _
  | handler called invocation =>
      exact law.bind (law.runHandler env hBlock fuel called invocation) fun _ => law.pure _
  | inclusion name => exact law.includeLibrary env hBlock name
  | library source =>
      show Keeps R E (readSource _ source)
      unfold readSource
      split
      · exact law.throw _
      · intro s
        rw [outcome_bind_of_ok (outcome_document s)]
        exact law.bindAt (law.library (law.wholeDocument hBlock) s trivial _) fun _ => law.pure _
  | rounds count text => exact law.bind (law.toFixpoint hBlock count text) fun _ => law.pure _
  | round text => exact law.bind (law.round hBlock text) fun _ => law.pure _

/-- The same document, or one reported under its names, on the same level. -/
structure SameLevel (s s' : ExpandState) : Prop where
  file : s'.document.file = s.document.file
  path : s'.document.path = s.document.path
  depth : s'.document.depth = s.document.depth

/-- A run that keeps the level and goes onward stays on its level. -/
theorem SameLevel.ofLaws {s s' : ExpandState} (h : Onward s s' ∧ Level s s') : SameLevel s s' :=
  ⟨h.1.file, h.1.path, h.2⟩

/-- A call starts on the level of the one that makes it, or one level deeper where that is
within the limit, or it reads the text of a library. -/
theorem Makes.inherits (h : Makes env call inner) :
    SameLevel call.state inner.state ∨
    (∃ reached, SameLevel call.state reached ∧
      reached.document.depth + 1 ≤ env.options.maxDepth ∧
      inner.state = reached.withDepth (reached.document.depth + 1)) ∨
    ∃ source text, call.routine = .library source ∧
      inner.state = call.state.withDocument (call.state.document.library source text) := by
  have law := onward.and level
  have hBlock := fun fuel marker? => law.block env fuel marker? ""
  cases h with
  | dispatch hRest hEnds hFound hDeeper =>
      obtain ⟨hDepth, rfl⟩ := descend_ok hDeeper
      refine .inr (.inl ⟨_, ?_, hDepth, rfl⟩)
      exact ⟨rfl, rfl, rfl⟩
  | further hRest hEnds hPlace => exact .inl (.ofLaws ((law.place env (hBlock _) _).ok hPlace))
  | document => exact .inl ⟨rfl, rfl, rfl⟩
  | scope hBegin hDeeper =>
      obtain ⟨hDepth, rfl⟩ := descend_ok hDeeper
      exact .inr (.inl ⟨_, .ofLaws (law.expectScopeBegin.ok hBegin), hDepth, rfl⟩)
  | paragraph => exact .inl ⟨rfl, rfl, rfl⟩
  | usePackage hName => exact .inl (.ofLaws (law.verbatimScope.ok hName))
  | argument hScopes hBefore =>
      have hRead := SameLevel.ofLaws ((law.mapM (law.argument env (hBlock _)) _).ok hBefore)
      exact .inl ⟨hRead.file, hRead.path, hRead.depth⟩
  | evaluation hArgs =>
      have hRead := SameLevel.ofLaws ((law.suspended (law.callArgs env (hBlock _) _ _)).ok hArgs)
      exact .inl ⟨hRead.file, hRead.path, hRead.depth⟩
  | library hFound hNew => exact .inl (.ofLaws ((law.markLoaded _).ok hNew))
  | libraryText => exact .inr (.inr ⟨_, _, rfl, rfl⟩)
  | firstRound => exact .inl ⟨rfl, rfl, rfl⟩
  | furtherRounds hRound => exact .inl (.ofLaws ((law.round (hBlock _) _).ok hRound))
  | generated => exact .inl ⟨rfl, rfl, rfl⟩

/-- Within the limit no call leads beyond it. -/
theorem Makes.depth_le (h : Makes env call inner)
    (hCall : call.state.document.depth ≤ env.options.maxDepth) :
    inner.state.document.depth ≤ env.options.maxDepth := by
  rcases h.inherits with hSame | ⟨reached, hSame, hDepth, hState⟩ | ⟨source, text, -, hState⟩
  · exact hSame.depth.trans_le hCall
  · rw [hState]
    exact hDepth
  · rw [hState]
    exact hCall

/-- Only the text of a library is reported under other names. -/
theorem Makes.names (h : Makes env call inner) (hText : ∀ source, call.routine ≠ .library source) :
    inner.state.document.file = call.state.document.file ∧
      inner.state.document.path = call.state.document.path := by
  rcases h.inherits with hSame | ⟨reached, hSame, -, hState⟩ | ⟨source, text, hLibrary, -⟩
  · exact ⟨hSame.file, hSame.path⟩
  · rw [hState]
    exact ⟨hSame.file, hSame.path⟩
  · exact absurd hLibrary (hText source)

end Expand

end MacroMarkup
