import MacroMarkup.Proofs.Expand.Calls
import MacroMarkup.Proofs.Expand.Comparison.Run

/-! What a call raises by itself, where all the calls that it makes succeed: an error at the
place that it reached, or the limit on the depth, one level deeper than it started. Only the
text of a library is refused elsewhere, at a place in its headers. -/
namespace MacroMarkup.Expand

/-- What a call on the given level raises by itself, in the state it comes to. -/
inductive Own (env : Env) (depth : Nat) (last : ExpandState) : Failure → Prop where
  | exhausted : Own env depth last .outOfFuel
  | failed {cause : ErrorCause} : (∀ limit, cause ≠ .recursionLimitExceeded limit) →
      Own env depth last (.error (last.document.error cause))
  | exceeded : last.document.depth = depth + 1 → env.options.maxDepth < depth + 1 →
      Own env depth last
        (.error (last.document.error (.recursionLimitExceeded env.options.maxDepth)))

/-- Whatever a computation raises from a state is its own. -/
def RaisesOwn {α : Type} (env : Env) (depth : Nat) (action : Expand α) (s : ExpandState) : Prop :=
  ∀ failure last, outcome action s = (.error failure, last) → Own env depth last failure

/-- Nothing is said of a state but that the error is at the place that was reached. -/
theorem reached : ReadingLaw (fun _ _ => True)
    fun failure _ s' => ∃ cause, failure = .error (s'.document.error cause) where
  refl _ := trivial
  trans _ _ := trivial
  failing cause _ _ _ := ⟨cause, rfl⟩
  following _ _ _ _ _ h := h
  reading _ _ := trivial
  defining _ _ _ _ _ _ _ _ := trivial
  loading _ _ := trivial

/-- Nothing is said of a run but that its errors are not the limit on the depth. -/
def unlimited (start : Session) : Comparison where
  start
  later _ _ := True
  raised cause := ∀ limit, cause ≠ .recursionLimitExceeded limit
  excepted _ := False
  beyond _ := False
  refl _ := trivial
  trans _ _ := trivial
  defining _ _ := trivial
  loading _ := trivial
  native h := h.2
  relocated _ _ h := h
  lasting h _ := h

namespace RaisesOwn

variable {α β : Type} {env : Env} {depth : Nat} {s : ExpandState}

/-- What never fails raises nothing. -/
theorem never {action : Expand α} (h : ∀ failure, ¬ FailsFrom action s failure) :
    RaisesOwn env depth action s :=
  fun failure _ hOutcome => absurd (congrArg Prod.fst hOutcome) (h failure)

theorem ok {action : Expand α} {a : α} {s' : ExpandState} (h : outcome action s = (.ok a, s')) :
    RaisesOwn env depth action s := by
  intro failure last hOutcome
  rw [h] at hOutcome
  cases hOutcome

theorem congr {action action' : Expand α} (h : outcome action s = outcome action' s)
    (h' : RaisesOwn env depth action' s) : RaisesOwn env depth action s := by
  intro failure last hOutcome
  exact h' failure last (h ▸ hOutcome)

theorem pure (a : α) : RaisesOwn env depth (Pure.pure a) s :=
  ok rfl

theorem bind {action : Expand α} {next : α → Expand β} (hAction : RaisesOwn env depth action s)
    (hNext : ∀ a middle, outcome action s = (.ok a, middle) → RaisesOwn env depth (next a) middle) :
    RaisesOwn env depth (action >>= next) s := by
  intro failure last hOutcome
  rw [outcome_bind] at hOutcome
  generalize hFirst : outcome action s = first at hOutcome hNext
  obtain ⟨other | a, middle⟩ := first
  · cases hOutcome
    exact hAction _ _ hFirst
  · exact hNext a middle rfl failure last hOutcome

/-- A result that is only handed on. -/
theorem returned {action : Expand α} {f : α → β} (h : RaisesOwn env depth action s) :
    RaisesOwn env depth (do return f (← action)) s :=
  h.bind fun _ _ _ => pure _

/-- Behind a computation whose outcome is known. -/
theorem behind {action : Expand α} {next : α → Expand β} {a : α} {middle : ExpandState}
    (hAction : outcome action s = (.ok a, middle)) (h : RaisesOwn env depth (next a) middle) :
    RaisesOwn env depth (action >>= next) s := by
  intro failure last hOutcome
  rw [outcome_bind_of_ok hAction] at hOutcome
  exact h failure last hOutcome

/-- Suspending the engine raises nothing. -/
theorem suspended {action : Expand α} (h : RaisesOwn env depth action s.suspend) :
    RaisesOwn env depth (Expand.suspended action) s := by
  intro failure last hOutcome
  rw [outcome_suspended] at hOutcome
  generalize hRun : outcome action s.suspend = result at hOutcome
  obtain ⟨other | a, middle⟩ := result
  · cases hOutcome
    cases h _ _ hRun with
    | exhausted => exact .exhausted
    | failed hCause => exact .failed hCause
    | exceeded hDepth hLimit => exact .exceeded hDepth hLimit
  · cases hOutcome

/-- An error other than the limit may be raised at any depth. -/
theorem fail {cause : ErrorCause} (hCause : ∀ limit, cause ≠ .recursionLimitExceeded limit) :
    RaisesOwn env depth (Expand.fail cause : Expand α) s := by
  intro failure last hOutcome
  cases hOutcome
  exact .failed hCause

/-- The level is the one at which the call started. -/
theorem descend (hDepth : s.document.depth = depth) :
    RaisesOwn env depth (Expand.descend env) s := by
  intro failure last hOutcome
  rw [outcome_descend, hDepth] at hOutcome
  split at hOutcome
  · cases hOutcome
    exact .exceeded rfl ‹_›
  · cases hOutcome

/-- What reads text and adds to the session only. -/
theorem reading {action : Expand α}
    (hReached : Obeys (fun _ _ => True)
      (fun failure _ s' => ∃ cause, failure = .error (s'.document.error cause)) action)
    (hUnlimited : ∀ start, Agrees (unlimited start) action action) :
    RaisesOwn env depth action s := by
  intro failure last hOutcome
  obtain ⟨cause, rfl⟩ := hReached.error hOutcome
  have hRaised := (hUnlimited s.session s trivial).raised (last.document.error cause)
    (congrArg Prod.fst hOutcome)
  exact .failed hRaised

theorem verbatimScope : RaisesOwn env depth Expand.verbatimScope s :=
  reading reached.verbatimScope fun _ => .verbatimScope

/-- What an invocation raises outside of what it dispatches to. -/
theorem dispatch {block : BlockReader} {rounds length : Nat} {handler : Handler}
    (h : ∀ middle failure, outcome (Expand.descend env) (s.advance length) = (.ok (), middle) →
      ¬ FailsFrom (runHandler env block rounds handler (String.ofList (s.rest.take length))) middle
        failure) :
    RaisesOwn env s.document.depth (Expand.dispatch env block rounds handler length) s := by
  apply behind (outcome_rest s)
  apply behind (outcome_advance length s)
  apply bind (descend rfl)
  intro u middle hDeeper
  apply bind (never (h middle · hDeeper))
  intro expansion last _
  exact behind (outcome_ascend last) (behind (outcome_addExecuted _ _) (pure _))

end RaisesOwn

/-- No call that this one makes fails. -/
def Call.Sound (env : Env) (call : Call) : Prop :=
  ∀ inner failure, Makes env call inner → ¬ inner.Fails env failure

section Routines

variable {env : Env} {fuel : Nat} {s : ExpandState}

/-- What a block raises is its own, if no call that it makes fails. -/
theorem Call.Sound.block {marker? : Option (List Char)}
    (h : Call.Sound env ⟨.block marker?, fuel, s⟩) :
    RaisesOwn env s.document.depth (blockReader env fuel marker?) s := by
  cases fuel with
  | zero =>
      intro failure last hOutcome
      cases hOutcome
      exact .exhausted
  | succ fuel =>
      unfold blockReader
      by_cases hRest : s.rest = []
      · cases marker? with
        | none => exact .ok (outcome_block_atEnd env fuel "" hRest)
        | some marker =>
            intro failure last hOutcome
            rw [outcome_block_unterminated env fuel marker "" hRest] at hOutcome
            cases hOutcome
            exact .failed nofun
      · by_cases hEnds : endsAt marker? s.rest
        · obtain ⟨marker, rfl, hPrefix⟩ := hEnds
          exact .ok (outcome_block_marker env fuel "" hRest hPrefix)
        · intro failure last hOutcome
          rw [outcome_block_place env fuel "" hRest hEnds] at hOutcome
          refine RaisesOwn.bind ?_ ?_ failure last hOutcome
          · cases hFound : s.session.registry.lookup? s.rest with
            | none =>
                obtain ⟨c, text, hText⟩ := List.exists_cons_of_ne_nil hRest
                apply RaisesOwn.ok
                rw [outcome_place env _ fuel hText, ← hText, hFound]
                exact outcome_literal c s
            | some found =>
                obtain ⟨length, handler⟩ := found
                apply RaisesOwn.congr (outcome_place_dispatch env _ fuel hRest hFound)
                apply RaisesOwn.dispatch
                intro middle failure hDeeper hFails
                exact h _ failure (.dispatch hRest hEnds hFound hDeeper) (failsFrom_return.mpr hFails)
          · intro piece middle hPlace
            apply RaisesOwn.never
            intro failure hFails
            apply h _ failure (.further hRest hEnds hPlace)
            exact failsFrom_return.mpr (failsFrom_block_output.mp hFails)

theorem Call.Sound.document (h : Call.Sound env ⟨.document, fuel, s⟩) :
    RaisesOwn env s.document.depth (wholeDocument (blockReader env fuel)) s := by
  apply RaisesOwn.bind
  · exact .never fun failure hFails => h _ failure .document (failsFrom_return.mpr hFails)
  · intro output middle _
    exact .behind (outcome_withAutoBreak _ middle) (.pure _)

/-- A scope raises that its brace is missing, or the limit. -/
theorem Call.Sound.scope (h : Call.Sound env ⟨.scope, fuel, s⟩) :
    RaisesOwn env s.document.depth (parsedScope env (blockReader env fuel)) s := by
  apply RaisesOwn.bind
  · exact .reading reached.expectScopeBegin fun _ => .expectScopeBegin
  · intro u begun hBegin
    apply RaisesOwn.bind
    · exact .descend (level.expectScopeBegin.ok hBegin)
    · intro u' middle hDeeper
      apply RaisesOwn.bind
      · exact .never fun failure hFails =>
          h _ failure (.scope hBegin hDeeper) (failsFrom_return.mpr hFails)
      · intro contents last _
        exact .behind (outcome_ascend last) (.pure _)

/-- What a builtin raises besides the errors of its scope and its library is its own. -/
theorem Call.Sound.builtin {builtin : Builtin} {invocation : String}
    (h : Call.Sound env ⟨.handler (.builtin builtin) invocation, fuel, s⟩) :
    RaisesOwn env s.document.depth
      (runBuiltin env (blockReader env fuel) builtin invocation) s := by
  cases builtin with
  | escape => exact .fail nofun
  | escapedChar char => exact .ok (outcome_escapedChar char invocation s)
  | comment => exact .ok (outcome_comment s)
  | scopeBegin => exact .fail nofun
  | scopeEnd => exact .fail nofun
  | usePackage =>
      apply RaisesOwn.bind .verbatimScope
      intro name middle hName
      apply RaisesOwn.returned
      exact .never fun failure hFails => h _ failure (.usePackage hName) hFails
  | newCommand =>
      apply RaisesOwn.returned
      exact .reading (reached.define .command) fun _ => .define .command
  | newEnvironment =>
      apply RaisesOwn.returned
      exact .reading (reached.define .environment) fun _ => .define .environment
  | environmentBegin => exact .bind .verbatimScope fun _ _ _ => .fail nofun
  | environmentEnd => exact .fail nofun
  | paragraph =>
      apply RaisesOwn.behind (outcome_withAutoBreak _ s)
      apply RaisesOwn.returned
      apply RaisesOwn.suspended
      exact .never fun failure hFails => h _ failure .paragraph (failsFrom_return.mpr hFails)
  | math =>
      apply RaisesOwn.behind (outcome_settleParagraph _ s)
      apply RaisesOwn.bind
      · exact .reading (reached.readPast _ _) fun _ => .readPast _ _
      · intro formula middle _
        apply RaisesOwn.behind (outcome_document middle)
        split <;> exact .pure _

/-- The scopes of a macro are read one by one. -/
theorem RaisesOwn.arguments {depth : Nat} {block : BlockReader} {flags : List Bool}
    (h : ∀ before after values middle failure, flags = before ++ false :: after →
      outcome (before.mapM (argument env block)) s = (.ok values, middle) →
      ¬ FailsFrom (parsedScope env block) middle failure) :
    RaisesOwn env depth (flags.mapM (argument env block)) s := by
  induction flags generalizing s with
  | nil => exact .pure _
  | cons flag flags ih =>
      rw [List.mapM_cons]
      apply RaisesOwn.bind
      · cases flag with
        | true => exact .verbatimScope
        | false => exact .never fun failure => h [] flags [] s failure rfl rfl
      · intro value middle hValue
        apply RaisesOwn.returned
        apply ih
        intro before after values last failure hFlags hBefore
        apply h (flag :: before) after (value :: values) last failure (by rw [hFlags]; rfl)
        rw [List.mapM_cons, outcome_bind_of_ok hValue, outcome_bind_of_ok hBefore]
        rfl

/-- What the arguments raise besides the errors of parsed scopes is their own. -/
theorem Call.Sound.callArgs {user : UserMacro} {invocation : String} {depth : Nat} (indent : Nat)
    (h : Call.Sound env ⟨.handler (.user user) invocation, fuel, s⟩) :
    RaisesOwn env depth (Expand.callArgs env (blockReader env fuel) user indent)
      (s.withEngine (s.engine.settle user.signature.policy).2).suspend := by
  have hScopes : RaisesOwn env depth (user.scopes.mapM (argument env (blockReader env fuel)))
      (s.withEngine (s.engine.settle user.signature.policy).2).suspend := by
    apply RaisesOwn.arguments
    intro before after values middle failure hSplit hBefore hFails
    exact h _ failure (.argument hSplit hBefore) (failsFrom_return.mpr hFails)
  unfold UserMacro.scopes at hScopes
  unfold Expand.callArgs
  split
  · apply RaisesOwn.returned
    exact .reading reached.emptyScope fun _ => .emptyScope
  · apply RaisesOwn.returned
    unfold Expand.arguments
    cases hKind : user.kind with
    | command =>
        rw [hKind] at hScopes
        exact hScopes.returned
    | environment =>
        rw [hKind] at hScopes
        apply RaisesOwn.bind hScopes
        intro scopes middle _
        apply RaisesOwn.returned
        exact .reading (reached.environmentBody _ _) fun _ => .environmentBody _ _

/-- What a macro raises is its own, if neither its scopes nor its rounds fail. -/
theorem Call.Sound.user {user : UserMacro} {invocation : String}
    (h : Call.Sound env ⟨.handler (.user user) invocation, fuel, s⟩) :
    RaisesOwn env s.document.depth
      (invoke env (blockReader env fuel) fuel user invocation) s := by
  apply RaisesOwn.behind (outcome_document s)
  apply RaisesOwn.behind (outcome_settleParagraph _ s)
  apply RaisesOwn.bind (.suspended (h.callArgs _))
  intro args middle hArgs
  apply RaisesOwn.behind (outcome_document middle)
  split
  · rename_i hMode
    apply RaisesOwn.returned
    unfold evaluate
    cases hBody : user.preferredBody? env.evaluator with
    | none => exact .fail nofun
    | some body =>
        dsimp only
        cases hText : env.evaluator.evaluate user.name body args.1.values with
        | error error => exact .bind (.fail nofun) fun _ _ hOk => nomatch hOk
        | ok text =>
            apply RaisesOwn.behind (outcome_located _ middle)
            apply RaisesOwn.behind (outcome_document middle)
            split
            · rename_i hTarget
              apply RaisesOwn.never
              intro failure hFails
              apply h _ failure (.evaluation hArgs hMode hTarget hBody hText)
              exact failsFrom_return.mpr hFails
            · exact .pure _
  · exact .pure _

/-- What an inclusion raises besides the errors of its library is its own. -/
theorem Call.Sound.inclusion {name : String} (h : Call.Sound env ⟨.inclusion name, fuel, s⟩) :
    RaisesOwn env s.document.depth (includeLibrary env (blockReader env fuel) name) s := by
  apply RaisesOwn.behind (outcome_document s)
  dsimp only
  cases hFound : Library.resolve? env.files env.options (baseDirectory s.document.path) name with
  | none => exact .fail nofun
  | some found =>
      obtain ⟨path, location⟩ := found
      apply RaisesOwn.bind
      · intro failure last hOutcome
        rw [outcome_markLoaded] at hOutcome
        split at hOutcome <;> cases hOutcome
      · intro isNew middle hNew
        cases isNew with
        | false => exact .pure _
        | true =>
            rw [if_pos rfl, readLibrary_eq]
            cases hText : env.files.readText path with
            | error cause => exact .fail nofun
            | ok text => exact .never fun failure => h _ failure (.library hFound hNew hText)

/-- A round does not fail, if its text does not. -/
theorem Call.Sound.round {text : String} (h : Call.Sound env ⟨.round text, fuel, s⟩)
    (failure : Failure) : ¬ FailsFrom (Expand.round (blockReader env fuel) text) s failure := by
  intro hFails
  obtain ⟨inner, hDocument, -⟩ := failsFrom_round.mp hFails
  exact h _ inner .generated (failsFrom_return.mpr hDocument)

/-- Rounds raise nothing but that there are too many of them. -/
theorem Call.Sound.rounds {count : Nat} {text : String}
    (h : Call.Sound env ⟨.rounds count text, fuel, s⟩) {failure : Failure}
    (hFails : FailsFrom (toFixpoint (blockReader env fuel) count text) s failure) :
    failure = .outOfFuel := by
  cases count with
  | zero => exact (Except.error.inj hFails).symm
  | succ count =>
      unfold FailsFrom at hFails
      rw [outcome_toFixpoint_succ] at hFails
      generalize hRound : outcome (Expand.round (blockReader env fuel) text) s = result at hFails
      obtain ⟨other | ⟨output, fired⟩, middle⟩ := result
      · exact absurd (failsFrom_return.mpr (congrArg Prod.fst hRound)) (h _ other .firstRound)
      · dsimp only at hFails
        split at hFails
        · cases hFails
        · rename_i hFired
          exact absurd (failsFrom_return.mpr hFails) (h _ failure (.furtherRounds hRound hFired))

/-- The text of a library may be refused before it is read. -/
theorem Call.Sound.library {source : Source} (h : Call.Sound env ⟨.library source, fuel, s⟩)
    {failure : Failure} (hFails : FailsFrom (readSource (blockReader env fuel) source) s failure) :
    ∃ error, FrontMatter.extract source = .error error ∧ failure = .error error := by
  cases hText : FrontMatter.extract source with
  | error error =>
      unfold FailsFrom readSource at hFails
      rw [hText] at hFails
      exact ⟨error, rfl, (Except.error.inj hFails).symm⟩
  | ok parts =>
      obtain ⟨headers, text⟩ := parts
      have hDocument := (failsFrom_readSource hText).mp hFails
      exact absurd (failsFrom_return.mpr hDocument) (h _ failure (.libraryText hText))

end Routines

variable {env : Env} {call : Call} {failure : Failure}

/-- What any call but a library raises is its own, if no call that it makes fails. -/
theorem Call.Sound.run (h : call.Sound env) (hText : ∀ source, call.routine ≠ .library source) :
    RaisesOwn env call.state.document.depth (call.routine.run env call.fuel) call.state := by
  obtain ⟨routine, fuel, s⟩ := call
  cases routine with
  | block marker? => exact h.block.returned
  | document => exact h.document.returned
  | scope => exact h.scope.returned
  | handler called invocation =>
      cases called with
      | builtin builtin => exact h.builtin.returned
      | user user => exact h.user.returned
  | inclusion name => exact h.inclusion
  | library source => exact absurd rfl (hText source)
  | rounds count text =>
      intro failure last hOutcome
      rw [h.rounds (failsFrom_return.mp (congrArg Prod.fst hOutcome))]
      exact .exhausted
  | round text => exact (RaisesOwn.never h.round).returned

/-- What a call raises is its own, or its text is that of a library and refused. -/
theorem Call.Raises.own (h : call.Raises env failure) :
    Own env call.state.document.depth (call.ending env).2 failure ∨
      ∃ source error, call.routine = .library source ∧
        FrontMatter.extract source = .error error ∧ failure = .error error := by
  by_cases hText : ∃ source, call.routine = .library source
  · right
    obtain ⟨routine, fuel, s⟩ := call
    obtain ⟨source, rfl⟩ := hText
    obtain ⟨error, hRefused, hError⟩ := Call.Sound.library h.2 h.1
    exact ⟨source, error, rfl, hRefused, hError⟩
  · left
    apply Call.Sound.run h.2 fun source hSource => hText ⟨source, hSource⟩
    exact Prod.ext h.1 rfl

/-- The limit is raised one level beyond it. -/
theorem Call.Raises.limit {error : LocatedError} {limit : Nat}
    (h : call.Raises env (.error error)) (hCause : error.cause = .recursionLimitExceeded limit) :
    limit = env.options.maxDepth ∧ env.options.maxDepth < (call.ending env).2.document.depth ∧
      (call.ending env).2.document.depth = call.state.document.depth + 1 := by
  rcases h.own with hOwn | ⟨source, refused, -, hRefused, hError⟩
  · cases hOwn with
    | failed hNot => exact absurd hCause (hNot limit)
    | exceeded hDepth hLimit =>
        cases hCause
        exact ⟨rfl, hDepth ▸ hLimit, hDepth⟩
  · cases hError
    exact absurd hCause ((FrontMatter.native_extract hRefused).2 limit)

/-- Outside the headers of libraries an error is raised at the place that was reached. -/
theorem Call.Raises.place {error : LocatedError} (h : call.Raises env (.error error))
    (hText : ∀ source, call.routine ≠ .library source) :
    error = (call.ending env).2.document.error error.cause := by
  rcases h.own with hOwn | ⟨source, -, hSource, -⟩
  · cases hOwn <;> rfl
  · exact absurd hSource (hText source)

end MacroMarkup.Expand
