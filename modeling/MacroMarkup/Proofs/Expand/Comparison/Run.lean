import MacroMarkup.Proofs.Expand.Comparison

/-! The comparison of two runs through invocations, libraries and whole documents. Whatever
the two are given differently is an exchange, and comes in at one place each. -/
namespace MacroMarkup

namespace Expand

variable {α β : Type} {x : Comparison} {s : ExpandState} {fuel fuel' rounds rounds' : Nat}

theorem mapM_length {action : β → Expand α} {items : List β} {values : List α} {s' : ExpandState}
    (h : outcome (items.mapM action) s = (.ok values, s')) : values.length = items.length := by
  induction items generalizing values s with
  | nil =>
      cases h
      rfl
  | cons item items ih =>
      rw [List.mapM_cons] at h
      obtain ⟨value, middle, -, hRest⟩ := outcome_bind_ok h
      obtain ⟨others, last, hOthers, hPure⟩ := outcome_bind_ok hRest
      cases hPure
      rw [List.length_cons, List.length_cons, ih hOthers]

/-- An invocation reads one value for each parameter of its macro. -/
theorem callArgs_length {env : Env} {block : BlockReader} {user : UserMacro} {indent : Nat}
    {args : CallArgs × Bool} {s' : ExpandState}
    (h : outcome (callArgs env block user indent) s = (.ok args, s')) :
    args.1.values.length = user.signature.verbatim.length := by
  cases hKind : user.kind with
  | command =>
      rcases callArgs_command_ok hKind h with ⟨hNone, hArgs, -⟩ | ⟨-, scopes, -, rfl, hScopes⟩
      · rw [hArgs, hNone]
        rfl
      · rw [CallArgs.values, Option.toList_none, List.append_nil, mapM_length hScopes]
  | environment =>
      by_cases hNone : user.signature.verbatim = []
      · unfold callArgs at h
        rw [hNone, List.isEmpty_nil, if_pos rfl] at h
        obtain ⟨empty, middle, -, hPure⟩ := outcome_bind_ok h
        cases hPure
        rw [hNone]
        rfl
      · obtain ⟨scopes, body, middle, rfl, hScopes, -⟩ := callArgs_environment_ok hKind hNone h
        have hPositive := List.length_pos_iff.mpr hNone
        rw [CallArgs.values, Option.toList_some, List.length_append, mapM_length hScopes,
          List.length_dropLast, List.length_singleton]
        omega

/-- What two runs are given, as far as the comparison says it is the same for both. Whatever
differs is an exception where the first run comes to it. -/
structure Comparison.Exchange (x : Comparison) (env env' : Env) : Prop where
  descending : Agrees x (descend env) (descend env')
  resolving (base name : String) :
    Library.resolve? env'.files env'.options base name =
      Library.resolve? env.files env.options base name
  reading {base name path : String} {location : List String} {σ : Session} :
    Library.resolve? env.files env.options base name = some (path, location) →
    x.later x.start σ → location ∉ σ.loaded →
    x.beyond { σ with loaded := location :: σ.loaded } ∨
      env'.files.readText path = env.files.readText path
  supports : env'.evaluator.supports = env.evaluator.supports
  evaluating {σ : Session} {user : UserMacro} {body : MacroBody} {values : List String} :
    x.Knows σ user → user.preferredBody? env.evaluator = some body →
    values.length = user.signature.verbatim.length →
    (∀ error, env.evaluator.evaluate user.name body values = .error error →
      x.raised (.evaluation error)) ∧
    (x.beyond σ ∨ env'.evaluator.evaluate user.name body values =
      env.evaluator.evaluate user.name body values)
  preload : env'.options.preload = env.options.preload

/-- A run compared with itself, in which only the fuel differs. -/
theorem Comparison.Exchange.refl (hRaised : ∀ cause, x.raised cause) (env : Env) :
    x.Exchange env env where
  descending s _ := by
    refine ⟨?_, fun _ _ => hRaised _, .inr rfl⟩
    rw [outcome_descend]
    split <;> exact x.refl s.session
  resolving _ _ := rfl
  reading _ _ _ := .inr rfl
  supports := rfl
  evaluating _ _ _ := ⟨fun _ _ => hRaised _, .inr rfl⟩
  preload := rfl

namespace Agrees

variable {env env' : Env} {block block' : BlockReader}

section Blocks

variable (hBlock : BlocksAgree x block block')
include hBlock

/-- Documents are read to their ends alike. -/
theorem wholeDocument : Agrees x (Expand.wholeDocument block) (Expand.wholeDocument block') :=
  (hBlock none).bind fun _ => (withAutoBreak _).bind fun _ => pure _

/-- A scope is read one level deeper in both runs. -/
theorem parsedScope (hDescend : Agrees x (descend env) (descend env')) :
    Agrees x (Expand.parsedScope env block) (Expand.parsedScope env' block') :=
  expectScopeBegin.bind fun _ => hDescend.bind fun _ => (hBlock _).bind fun _ =>
    (modifyDocument _).bind fun _ => pure _

/-! Libraries. -/

/-- One file read in both runs. -/
theorem readLibrary (env : Env) (path : String) :
    Agrees x (Expand.readLibrary env block path) (Expand.readLibrary env block' path) := by
  unfold Expand.readLibrary
  split
  · exact fail ⟨nofun, nofun⟩
  · dsimp only
    split
    · rename_i error hRefused
      intro s _
      refine .ended (outcome_throw _ s) (x.refl s.session) fun error hError => ?_
      cases hError
      exact x.native (FrontMatter.native_extract hRefused)
    · exact document.bind fun current => ((wholeDocument hBlock).onDocument _).bind fun _ => pure _

omit hBlock in
theorem markLoaded (location : List String) :
    Agrees x (Expand.markLoaded location) (Expand.markLoaded location) := by
  intro s _
  by_cases hLoaded : s.session.loaded.contains location
  · exact .succeeded ((outcome_markLoaded location s).trans (if_pos hLoaded)) (x.refl s.session)
  · refine .succeeded ((outcome_markLoaded location s).trans (if_neg hLoaded)) (x.loading ?_)
    simpa using hLoaded

/-- The two find the same library, and a file that is read holds the same or is an exception. -/
theorem includeLibrary (hEnv : x.Exchange env env') (name : String) :
    Agrees x (Expand.includeLibrary env block name) (Expand.includeLibrary env' block' name) := by
  refine document.bind fun current => ?_
  dsimp only
  rw [hEnv.resolving]
  split
  · exact fail ⟨nofun, nofun⟩
  · rename_i path location hFound
    intro s hAdmits
    refine (markLoaded location s hAdmits).bind fun isNew middle hMark hLater => ?_
    have hMiddle : x.Admits middle := x.trans hAdmits hLater
    rw [outcome_markLoaded] at hMark
    split at hMark
    · cases hMark
      exact pure _ _ hMiddle
    · rename_i hNew
      cases hMark
      have hRead := readLibrary hBlock env path _ hMiddle
      rcases hEnv.reading hFound hAdmits (by simpa using hNew) with hBeyond | hText
      · exact hRead.ofBeyond hBeyond
      · have hSame : Expand.readLibrary env' block' path = Expand.readLibrary env block' path := by
          unfold Expand.readLibrary
          rw [hText]
        rw [if_pos rfl, if_pos rfl, hSame]
        exact hRead

/-! Invocations. -/

theorem round (text : String) : Agrees x (Expand.round block text) (Expand.round block' text) := by
  intro s hAdmits
  have hInner := wholeDocument hBlock (s.withDocument (s.document.generated text)) hAdmits
  obtain ⟨hLater, hRaised, hSame⟩ := hInner
  refine ⟨?_, ?_, ?_⟩ <;> rw [outcome_round] <;>
    generalize outcome (Expand.wholeDocument block) _ = result at hLater hRaised hSame <;>
    obtain ⟨failure | output, middle⟩ := result
  · exact hLater
  · exact hLater
  · rintro error hError
    cases failure with
    | outOfFuel => cases hError
    | error inner =>
        have hCause : error.cause = inner.cause := by
          have hMoved := Except.error.inj hError
          unfold relocate at hMoved
          dsimp only at hMoved
          split at hMoved <;> cases hMoved <;> rfl
        rw [hCause]
        exact hRaised inner rfl
  · exact fun error hError => nomatch hError
  · rw [outcome_round]
    exact hSame.imp (fun h => h.imp_left fun ⟨_, hFailure, hExcepted⟩ =>
      ⟨_, rfl, x.relocated _ (Except.error.inj hFailure ▸ hExcepted)⟩) fun hSame => by rw [hSame]
  · rw [outcome_round]
    exact hSame.imp (fun h => h.imp_left fun ⟨_, hFailure, _⟩ => nomatch hFailure)
      fun hSame => by rw [hSame]

/-- Rounds agree as far as the first run has fuel for them. -/
theorem toFixpoint (hRounds : x.Fuel rounds rounds') (text : String) :
    Agrees x (Expand.toFixpoint block rounds text) (Expand.toFixpoint block' rounds' text) := by
  induction rounds generalizing rounds' text with
  | zero => exact exhausted hRounds rfl fun hNone => hNone ▸ rfl
  | succ rounds ih =>
      obtain ⟨rounds', rfl⟩ : ∃ fewer, rounds' = fewer + 1 :=
        ⟨rounds' - 1, by have := hRounds.1; omega⟩
      refine (round hBlock text).bind fun result => ?_
      dsimp only
      split
      · exact pure _
      · exact ih hRounds.pred _

theorem argument (hDescend : Agrees x (descend env) (descend env')) (verbatim : Bool) :
    Agrees x (Expand.argument env block verbatim) (Expand.argument env' block' verbatim) := by
  unfold Expand.argument
  split
  · exact verbatimScope
  · exact parsedScope hBlock hDescend

theorem mapM_argument (hDescend : Agrees x (descend env) (descend env')) (verbatim : List Bool) :
    Agrees x (verbatim.mapM (Expand.argument env block))
      (verbatim.mapM (Expand.argument env' block')) := by
  induction verbatim with
  | nil => exact pure _
  | cons verbatim others ih =>
      rw [List.mapM_cons, List.mapM_cons]
      exact (argument hBlock hDescend verbatim).bind fun _ => ih.bind fun _ => pure _

/-- The arguments of an invocation are read alike. -/
theorem callArgs (hDescend : Agrees x (descend env) (descend env')) (user : UserMacro)
    (indent : Nat) :
    Agrees x (Expand.callArgs env block user indent) (Expand.callArgs env' block' user indent) := by
  unfold Expand.callArgs
  split
  · exact emptyScope.bind fun _ => pure _
  · refine bind ?_ fun _ => pure _
    unfold Expand.arguments
    split
    · exact (mapM_argument hBlock hDescend _).bind fun _ => pure _
    · exact (mapM_argument hBlock hDescend _).bind fun _ =>
        (environmentBody _ _).bind fun _ => pure _

/-- One evaluator in both runs. -/
theorem evaluateAt (hRounds : x.Fuel rounds rounds') {user : UserMacro} {values : List String}
    (hRaised : ∀ {body error}, user.preferredBody? env.evaluator = some body →
      env.evaluator.evaluate user.name body values = .error error → x.raised (.evaluation error)) :
    Agrees x (Expand.evaluate env block rounds user values)
      (Expand.evaluate env block' rounds' user values) := by
  unfold Expand.evaluate
  split
  · exact fail ⟨nofun, nofun⟩
  · rename_i body hBody
    refine (located fun cause hCause => ?_).bind fun result => document.bind fun current => ?_
    · generalize hResult : env.evaluator.evaluate user.name body values = result at hCause
      cases result with
      | ok text => cases hCause
      | error error =>
          cases hCause
          exact hRaised hBody hResult
    · split
      · exact toFixpoint hBlock hRounds _
      · exact pure _

/-- A macro that the comparison knows is evaluated alike, or its call is an exception. -/
theorem evaluate (hEnv : x.Exchange env env') (hRounds : x.Fuel rounds rounds') {user : UserMacro}
    {values : List String} (hLength : values.length = user.signature.verbatim.length)
    (hAdmits : x.Admits s) (hKnows : x.Knows s.session user) :
    AgreesAt x s (Expand.evaluate env block rounds user values)
      (Expand.evaluate env' block' rounds' user values) := by
  have hOne : AgreesAt x s (Expand.evaluate env block rounds user values)
      (Expand.evaluate env block' rounds' user values) :=
    evaluateAt hBlock hRounds (fun hBody hError =>
      (hEnv.evaluating hKnows hBody hLength).1 _ hError) s hAdmits
  have hPreferred : user.preferredBody? env'.evaluator = user.preferredBody? env.evaluator := by
    unfold UserMacro.preferredBody?
    rw [hEnv.supports]
  cases hBody : user.preferredBody? env.evaluator with
  | none =>
      have hSame : Expand.evaluate env' block' rounds' user values =
          Expand.evaluate env block' rounds' user values := by
        unfold Expand.evaluate
        rw [hPreferred, hBody]
      exact hSame ▸ hOne
  | some body =>
      rcases (hEnv.evaluating hKnows hBody hLength).2 with hBeyond | hResult
      · exact hOne.ofBeyond hBeyond
      · have hSame : Expand.evaluate env' block' rounds' user values =
            Expand.evaluate env block' rounds' user values := by
          unfold Expand.evaluate
          rw [hPreferred, hBody]
          dsimp only
          rw [hResult]
        exact hSame ▸ hOne

/-- An invocation is settled, read and evaluated alike. -/
theorem invoke (hEnv : x.Exchange env env') (hRounds : x.Fuel rounds rounds') {user : UserMacro}
    (invocation : String) (hAdmits : x.Admits s) (hKnows : x.Knows s.session user) :
    AgreesAt x s (Expand.invoke env block rounds user invocation)
      (Expand.invoke env' block' rounds' user invocation) := by
  have hSettle : Agrees x (Expand.settleParagraph user.signature.policy)
      (Expand.settleParagraph user.signature.policy) :=
    quiet fun s => ⟨_, _, outcome_settleParagraph _ s, rfl⟩
  refine (document s hAdmits).bind fun current s₁ _ hFirst => ?_
  have hAdmits₁ : x.Admits s₁ := x.trans hAdmits hFirst
  refine (hSettle s₁ hAdmits₁).bind fun marker s₂ _ hSecond => ?_
  have hAdmits₂ : x.Admits s₂ := x.trans hAdmits₁ hSecond
  have hArgs := callArgs hBlock hEnv.descending user current.reader.indent
  refine (hArgs s₂.suspend hAdmits₂).suspended.bind fun args s₃ hRead hThird => ?_
  have hAdmits₃ : x.Admits s₃ := x.trans hAdmits₂ hThird
  obtain ⟨middle, hCall, -⟩ := suspended_ok hRead
  refine (document s₃ hAdmits₃).bind fun reached s₄ _ hFourth => ?_
  have hAdmits₄ : x.Admits s₄ := x.trans hAdmits₃ hFourth
  split
  · have hKnows₄ := ((hKnows.later hFirst).later hSecond |>.later hThird).later hFourth
    refine (evaluate hBlock hEnv hRounds (callArgs_length hCall) hAdmits₄ hKnows₄).bind
      fun text last _ hLast => pure _ last (x.trans hAdmits₄ hLast)
  · exact pure _ s₄ hAdmits₄

theorem runHandler (hEnv : x.Exchange env env') (hRounds : x.Fuel rounds rounds') {handler : Handler}
    (invocation : String) (hAdmits : x.Admits s)
    (hKnows : ∀ user, handler = .user user → x.Knows s.session user) :
    AgreesAt x s (Expand.runHandler env block rounds handler invocation)
      (Expand.runHandler env' block' rounds' handler invocation) := by
  cases handler with
  | user user => exact invoke hBlock hEnv hRounds invocation hAdmits (hKnows user rfl)
  | builtin builtin =>
      have hInline : Agrees x inlinePosition inlinePosition :=
        quiet fun s => ⟨_, _, outcome_settleParagraph _ s, rfl⟩
      suffices hBuiltin : Agrees x (Expand.runBuiltin env block builtin invocation)
          (Expand.runBuiltin env' block' builtin invocation) from hBuiltin s hAdmits
      cases builtin with
      | escape => exact fail ⟨nofun, nofun⟩
      | escapedChar char => exact hInline.bind fun _ => document.bind fun _ => pure _
      | comment => exact rest.bind fun _ => (modifyDocument _).bind fun _ => pure _
      | scopeBegin => exact fail ⟨nofun, nofun⟩
      | scopeEnd => exact fail ⟨nofun, nofun⟩
      | usePackage =>
          exact verbatimScope.bind fun _ => (includeLibrary hBlock hEnv _).bind fun _ => pure _
      | newCommand => exact (define _).bind fun _ => pure _
      | newEnvironment => exact (define _).bind fun _ => pure _
      | environmentBegin => exact verbatimScope.bind fun _ => fail ⟨nofun, nofun⟩
      | environmentEnd => exact fail ⟨nofun, nofun⟩
      | paragraph =>
          have hScope := parsedScope hBlock hEnv.descending
          exact (withAutoBreak _).bind fun _ =>
            bind (fun s hAdmits => (hScope s.suspend hAdmits).suspended) fun _ => pure _
      | math =>
          refine hInline.bind fun _ => (readPast _ _).bind fun _ => document.bind fun _ => ?_
          split <;> exact pure _

/-- One level deeper, as far as both limits allow. -/
theorem dispatch (hEnv : x.Exchange env env') (hRounds : x.Fuel rounds rounds') {handler : Handler}
    (length : Nat) (hAdmits : x.Admits s)
    (hKnows : ∀ user, handler = .user user → x.Knows s.session user) :
    AgreesAt x s (Expand.dispatch env block rounds handler length)
      (Expand.dispatch env' block' rounds' handler length) := by
  refine (rest s hAdmits).bind fun text s₁ _ hFirst => ?_
  have hAdmits₁ : x.Admits s₁ := x.trans hAdmits hFirst
  refine (modifyDocument _ s₁ hAdmits₁).bind fun _ s₂ _ hSecond => ?_
  have hAdmits₂ : x.Admits s₂ := x.trans hAdmits₁ hSecond
  refine (hEnv.descending s₂ hAdmits₂).bind fun _ s₃ _ hThird => ?_
  have hAdmits₃ : x.Admits s₃ := x.trans hAdmits₂ hThird
  refine (runHandler hBlock hEnv hRounds _ hAdmits₃ fun user hUser =>
    (((hKnows user hUser).later hFirst).later hSecond).later hThird).bind
      fun expansion s₄ _ hFourth => ?_
  exact ((modifyDocument _).bind fun _ => (modifyDocument _).bind fun _ => pure _) s₄
    (x.trans hAdmits₃ hFourth)

theorem place (hEnv : x.Exchange env env') (hRounds : x.Fuel rounds rounds') :
    Agrees x (Expand.place env block rounds) (Expand.place env' block' rounds') := by
  refine rest.bind fun text => ?_
  split
  · exact pure _
  · rename_i c text
    intro s hAdmits
    have hRegistry : outcome Expand.registry s = (.ok s.session.registry, s) := outcome_registry s
    refine (AgreesAt.succeeded hRegistry (x.refl _)).bind fun registry middle hRead _ => ?_
    cases hRegistry.symm.trans hRead
    split
    · rename_i length handler hFound
      exact dispatch hBlock hEnv hRounds length hAdmits fun user hUser =>
        ⟨s.session, c :: text, length, hAdmits, x.refl _, hUser ▸ hFound⟩
    · exact ((withAutoBreak _).bind fun _ => (modifyDocument _).bind fun _ => pure _) s hAdmits

end Blocks

/-- The induction is on the fuel, and one step of it reads one place. -/
theorem loop {read read' : BlockReader → Nat → Expand String}
    (hRead : ∀ {block block' : BlockReader} {rounds rounds' : Nat}, BlocksAgree x block block' →
      x.Fuel rounds rounds' → Agrees x (read block rounds) (read' block' rounds'))
    (hFuel : x.Fuel fuel fuel') (marker? : Option (List Char)) (output : String) :
    Agrees x (Expand.loop read fuel marker? output) (Expand.loop read' fuel' marker? output) := by
  induction fuel generalizing fuel' marker? output with
  | zero => exact exhausted hFuel rfl fun hNone => hNone ▸ rfl
  | succ fuel ih =>
      obtain ⟨fuel', rfl⟩ : ∃ less, fuel' = less + 1 := ⟨fuel' - 1, by have := hFuel.1; omega⟩
      refine rest.bind fun text => ?_
      split
      · exact fail ⟨nofun, nofun⟩
      · exact pure _
      · split
        · exact (modifyDocument _).bind fun _ => pure _
        · exact (hRead (fun marker? => ih hFuel.pred marker? "") hFuel.pred).bind
            fun _ => ih hFuel.pred marker? _

variable (hEnv : x.Exchange env env') (hFuel : x.Fuel fuel fuel')
include hEnv hFuel

/-- The run law: blocks are read alike with the fuel of either side. -/
theorem blockReader : BlocksAgree x (Expand.blockReader env fuel) (Expand.blockReader env' fuel') := by
  intro marker?
  unfold Expand.blockReader
  rw [block_eq_loop, block_eq_loop]
  exact loop (fun hBlock hRounds => place hBlock hEnv hRounds) hFuel marker? ""

theorem expandDocument : Agrees x (Expand.expandDocument env fuel) (Expand.expandDocument env' fuel') :=
  wholeDocument (blockReader hEnv hFuel)

/-- Preloaded libraries are read alike, one after the other. -/
theorem preloading (names : List String) :
    Agrees x (names.forM fun name => Expand.includeLibrary env (Expand.blockReader env fuel) name)
      (names.forM fun name => Expand.includeLibrary env' (Expand.blockReader env' fuel') name) := by
  induction names with
  | nil => exact pure _
  | cons name names ih => exact (includeLibrary (blockReader hEnv hFuel) hEnv name).bind fun _ => ih

/-- Both passes of a compilation, from any session that is admitted. -/
theorem passes (source : Source) (target : Target) :
    Agrees x (Expand.passes env fuel source target) (Expand.passes env' fuel' source target) := by
  unfold Expand.passes
  rw [hEnv.preload]
  refine (preloading hEnv hFuel _).bind fun _ => (expandDocument hEnv hFuel).bind fun normalized => ?_
  split
  · exact (modifyDocument _).bind fun _ => expandDocument hEnv hFuel
  · exact pure _

end Agrees

end Expand

end MacroMarkup
