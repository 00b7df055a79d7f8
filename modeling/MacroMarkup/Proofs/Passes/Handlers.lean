import MacroMarkup.Proofs.Passes.Scopes

/-! The handlers of a document in three passes. What the direct pass dispatches to is written by
the normalizing pass, and dispatched to again in what is written. -/
namespace MacroMarkup.Expand

variable {env : Env} {fuel : Nat} {block : BlockReader} {user : UserMacro} {s s' m m' : ExpandState}

/-! What the normalizing pass makes of a state of another pass. -/

/-- In the normalizing pass an escaped character is written as its escape, behind the gap. -/
theorem escapedChar_normalizing (hOrderly : s.engine.Orderly) (char : EscapedChar)
    (invocation : String) (executed : Nat) :
    ∃ expansion, outcome (escapedChar char invocation) (s.normalizing executed) =
        (.ok expansion, (s.withEngine s.engine.settled).normalizing executed) ∧
      expansion.text = String.ofList s.engine.gap ++ char.ctx := by
  have hEngine : (s.normalizing executed).engine = s.engine.normalizing := rfl
  have hRender : char.render (s.normalizing executed).document.target = char.ctx := rfl
  rw [outcome_escapedChar, hEngine, hRender, hOrderly.settle_normalizing]
  refine ⟨_, rfl, ?_⟩
  split <;> rfl

/-- There a formula is written as it is, behind the gap. -/
theorem math_normalizing (hOrderly : s.engine.Orderly) {formula after : List Char}
    (hRest : s.rest = formula ++ '$' :: after) (hFormula : '$' ∉ formula) (executed : Nat) :
    outcome math (s.normalizing executed) =
      (.ok (.passthrough (String.ofList s.engine.gap ++ Spelling.math ++ String.ofList formula ++
          Spelling.math)),
        ((s.withEngine s.engine.settled).advance (formula.length + 1)).normalizing executed) := by
  have hEngine : (s.normalizing executed).engine = s.engine.normalizing := rfl
  have hTarget : (s.normalizing executed).document.target ≠ .web := by
    intro hWeb
    cases hWeb
  rw [outcome_math (s := s.normalizing executed) hRest hFormula, hEngine,
    hOrderly.settle_normalizing, if_neg hTarget]
  rfl

section Place

variable (env : Env) (block : BlockReader) (rounds executed : Nat)

/-- There a blank is read into the gap. -/
theorem blank_normalizing (hBuilt : s.session.registry.Built) {c : Char} {text : List Char}
    (hBlank : c = ' ' ∨ c = '\n') (hRest : s.rest = c :: text) :
    outcome (place env block rounds) (s.normalizing executed) =
      (.ok "", ((s.withEngine (s.engine.behindBlanks [c])).advance 1).normalizing executed) := by
  have hEngine : (s.normalizing executed).engine = s.engine.normalizing := rfl
  rw [outcome_place_blank (s := s.normalizing executed) env _ rounds hBlank hRest hBuilt, hEngine,
    AutoBreak.normalizing_behindBlanks]
  rfl

/-- There a literal character is written behind the gap. -/
theorem literal_normalizing (hOrderly : s.engine.Orderly) {c : Char} {text : List Char}
    (hVisible : c ≠ ' ' ∧ c ≠ '\n') (hRest : s.rest = c :: text)
    (hLiteral : s.session.registry.lookup? (c :: text) = none) :
    outcome (place env block rounds) (s.normalizing executed) =
      (.ok (String.ofList s.engine.gap ++ String.singleton c),
        ((s.withEngine s.engine.settled).advance 1).normalizing executed) := by
  have hSession : (s.normalizing executed).session = s.session := rfl
  have hEngine : (s.normalizing executed).engine = s.engine.normalizing := rfl
  rw [outcome_place (s := s.normalizing executed) env _ rounds hRest, hSession, hLiteral]
  dsimp only
  rw [outcome_literal, hEngine, hOrderly.process_normalizing hVisible]
  rfl

/-- There a handler is dispatched to as in the rendering pass. -/
theorem dispatch_normalizing {handler : Handler} {length firings executed' : Nat}
    {expansion : Expansion} (hSome : s.rest ≠ [])
    (hFound : s.session.registry.lookup? s.rest = some (length, handler))
    (hDepth : s.document.depth + 1 ≤ env.options.maxDepth)
    (h : outcome (runHandler env block rounds handler (String.ofList (s.rest.take length)))
      ((s.entered length).normalizing executed) = (.ok expansion, s'.normalizing executed')) :
    outcome (place env block rounds) (s.normalizing executed) =
      (.ok expansion.text, (s'.exited firings).normalizing (executed' + expansion.firings)) := by
  have hStart : (s.normalizing executed).entered length = (s.entered length).normalizing executed := rfl
  have hSame : (s.normalizing executed).rest = s.rest := rfl
  rw [outcome_place_dispatch (s := s.normalizing executed) env _ rounds hSome hFound,
    outcome_dispatch (s := s.normalizing executed) rounds _ _ hDepth, hStart, hSame, h]
  rfl

end Place

/-- A macro without parameters takes an empty scope, if there is one. -/
theorem outcome_callArgs_bare (hNone : user.signature.verbatim = []) {empty : Bool}
    (h : outcome emptyScope s = (.ok empty, s')) (indent : Nat) :
    outcome (callArgs env block user indent) s = (.ok (⟨[], none⟩, empty), s') := by
  unfold callArgs
  rw [hNone, List.isEmpty_nil, if_pos rfl, outcome_bind_of_ok h]
  rfl

/-- A command with parameters reads a scope for each of them. -/
theorem outcome_callArgs_scopes (hKind : user.kind = .command) (hSome : user.signature.verbatim ≠ [])
    {scopes : List String}
    (h : outcome (user.signature.verbatim.mapM (argument env block)) s = (.ok scopes, s'))
    (indent : Nat) :
    outcome (callArgs env block user indent) s = (.ok (⟨scopes, none⟩, false), s') := by
  unfold callArgs arguments
  rw [hKind, List.isEmpty_eq_false_iff.mpr hSome, if_neg (by decide), outcome_bind]
  dsimp only
  rw [outcome_bind_of_ok h]
  rfl

/-- What the scopes of a command, as the normalizing pass writes them, are read as. -/
structure ArgumentsAgain (env : Env) (user : UserMacro) (s : ExpandState) (args : CallArgs × Bool)
    (s' : ExpandState) (text : List Char) : Prop where
  begins : text.head? = some '\x7b'
  again : ∀ {m : ExpandState} {tail : List Char} (indent : Nat), InStep s m → m.rest = text ++ tail →
    ∃ fuel others m', outcome (callArgs env (blockReader env fuel) user indent) m = (.ok others, m') ∧
      others.1 = args.1 ∧
      (∀ invocation, user.reemit invocation others.1 others.2 = user.reemit invocation args.1 args.2) ∧
      InStep s' m' ∧ m'.rest = tail

/-- A macro without parameters is written with an empty scope. -/
theorem reemit_bare (hKind : user.kind = .command) (invocation : String) (empty : Bool) :
    user.reemit invocation ⟨[], none⟩ empty = invocation ++ Spelling.emptyScope := by
  unfold UserMacro.reemit
  rw [hKind, List.isEmpty_nil, if_pos (by simp), List.map_nil, String.join_nil, String.append_empty,
    String.append_empty]

/-- A macro is written with the scopes that it was read with. -/
theorem reemit_scopes {scopes : List String} (hScopes : scopes ≠ []) (invocation : String) :
    user.reemit invocation ⟨scopes, none⟩ false =
      invocation ++ String.join (scopes.map Spelling.braced) := by
  unfold UserMacro.reemit
  rw [List.isEmpty_eq_false_iff.mpr hScopes, if_neg (by simp), String.append_empty,
    String.append_empty]

/-- The arguments of a command are read again from what the normalizing pass writes. -/
theorem callArgs_again (hBlocks : BlocksRewritten env fuel) (hs : Passing s)
    (hKind : user.kind = .command) {indent : Nat} {args : CallArgs × Bool}
    (h : outcome (callArgs env (blockWithin Handler.rendering env fuel) user indent) s =
      (.ok args, s')) :
    Remains s s' ∧ ∃ written text, ArgumentsAgain env user s args s' text ∧
      (∀ invocation, (user.reemit invocation written.1 written.2).toList = invocation.toList ++ text) ∧
      ∀ executed, ∃ executed', outcome (callArgs env (blockReader env fuel) user indent)
        (s.normalizing executed) = (.ok written, s'.normalizing executed') := by
  rcases callArgs_command_ok hKind h with ⟨hNone, hArgs, hEmpty⟩ | ⟨hSome, scopes, hScopes, rfl, hRead⟩
  · obtain ⟨args, empty⟩ := args
    obtain rfl : args = ⟨[], none⟩ := hArgs
    rw [outcome_emptyScope] at hEmpty
    have hRemains : Remains s s' := by
      split at hEmpty <;> cases hEmpty <;> exact ⟨rfl, rfl, rfl, rfl, id, hs.orderly⟩
    refine ⟨hRemains, (⟨[], none⟩, empty), ['\x7b', '\x7d'], ⟨rfl, ?_⟩, ?_, fun executed => ⟨executed, ?_⟩⟩
    · intro m tail indent hStep hText
      refine ⟨0, _, _, outcome_callArgs_bare hNone (outcome_emptyScope_braces hText) indent, rfl,
        fun invocation => ?_, ?_, ?_⟩
      · rw [reemit_bare hKind, reemit_bare hKind]
      · split at hEmpty <;> cases hEmpty <;>
          exact ⟨hStep.session, hStep.depth, hStep.target, hStep.engine⟩
      · rw [m.rest_advance, hText]
        rfl
    · intro invocation
      rw [reemit_bare hKind, String.toList_append]
      rfl
    · refine outcome_callArgs_bare hNone ?_ indent
      rw [outcome_emptyScope]
      change (if ['\x7b', '\x7d'] <+: s.rest then _ else _) = _
      split at hEmpty
      · rename_i hBraces
        cases hEmpty
        rw [if_pos hBraces]
        rfl
      · rename_i hBraces
        cases hEmpty
        rw [if_neg hBraces]
  · obtain ⟨hRemains, written, hLength, hRespelled⟩ := arguments_respelled hBlocks hs hRead
    have hWritten : written ≠ [] := by
      rw [← List.length_pos_iff, hLength]
      exact List.length_pos_iff.mpr hSome
    refine ⟨hRemains, (⟨written, none⟩, false), (String.join (written.map Spelling.braced)).toList,
      ⟨?_, ?_⟩, ?_, fun executed => ?_⟩
    · obtain ⟨first, more, rfl⟩ := List.exists_cons_of_ne_nil hWritten
      rw [List.map_cons, String.join_cons, String.toList_append, toList_braced]
      rfl
    · intro m tail indent hStep hText
      obtain ⟨fuel', m', hAgain, hLast, hTail⟩ := hRespelled.again hStep hText
      exact ⟨fuel', _, m', outcome_callArgs_scopes hKind hSome hAgain indent, rfl, fun _ => rfl, hLast,
        hTail⟩
    · intro invocation
      rw [reemit_scopes hWritten, String.toList_append]
    · obtain ⟨executed', hNormal⟩ := hRespelled.normal executed
      exact ⟨executed', outcome_callArgs_scopes hKind hSome hNormal indent⟩

/-! Handlers. -/

/-- What an invocation with this spelling comes to: the normalizing pass writes it with
the blanks that were pending, its spelling, and some text behind it; the last pass reads
that text behind the same spelling. -/
structure Redispatched (env : Env) (fuel : Nat) (handler : Handler) (key : List Char)
    (s : ExpandState) (expansion : Expansion) (s' : ExpandState) (text : List Char) : Prop where
  normal : ∀ executed, ∃ executed' written, outcome (runHandler env (blockReader env fuel) fuel
    handler (String.ofList key)) (s.normalizing executed) = (.ok written, s'.normalizing executed') ∧
      written.text.toList = s.engine.gap ++ (key ++ text)
  again : ∀ {m : ExpandState} {tail : List Char},
    Counterpart (s.engine.clearPending.behindBlanks s.engine.gap) s m → m.rest = text ++ tail →
      ∃ fuel again m', outcome (runHandler env (blockReader env fuel) fuel handler
        (String.ofList key)) m = (.ok again, m') ∧ again.text = expansion.text ∧ InStep s' m' ∧
          m'.rest = tail
  word : ∀ {after : List Char}, Text.word after <+: s'.ahead →
    Text.word (text ++ after) <+: Text.word s.rest

/-- Without a gap the word ahead is the one that comes next. -/
theorem ahead_settled {s : ExpandState} (hEngine : s.engine.gap = []) :
    s.ahead = Text.word s.rest := by
  rw [ExpandState.ahead, if_pos hEngine]

/-- An escaped character is its spelling. -/
theorem escapedChar_redispatched (hs : Passing s) {char : EscapedChar} {expansion : Expansion}
    (h : outcome (runHandler env (blockWithin Handler.rendering env fuel) fuel
      (.builtin (.escapedChar char)) char.ctx) s = (.ok expansion, s')) :
    Remains s s' ∧ s'.engine.opened = true ∧
      Redispatched env fuel (.builtin (.escapedChar char)) char.ctx.toList s expansion s' [] := by
  change outcome (escapedChar char char.ctx) s = _ at h
  rw [outcome_escapedChar, hs.orderly.settle, Prod.mk.injEq] at h
  obtain ⟨hExpansion, rfl⟩ := h
  refine ⟨⟨rfl, rfl, rfl, rfl, fun _ => rfl, s.engine.orderly_settled⟩, rfl, fun executed => ?_, ?_, ?_⟩
  · rw [String.ofList_toList]
    obtain ⟨written, hNormal, hText⟩ := escapedChar_normalizing hs.orderly char char.ctx executed
    refine ⟨executed, written, hNormal, ?_⟩
    rw [hText, String.toList_append, String.toList_ofList, List.append_nil]
  · intro m tail hStep hText
    refine ⟨0, expansion, m.withEngine s.engine.settled, ?_, rfl,
      ⟨hStep.session, hStep.depth, hStep.target, rfl⟩, hText⟩
    rw [String.ofList_toList]
    change outcome (escapedChar char char.ctx) _ = _
    rw [outcome_escapedChar, hStep.engine, hStep.target, hs.orderly.settle_gap, hs.orderly.settle]
    rw [← hExpansion]
  · intro after hAfter
    rwa [ahead_settled s.engine.gap_settled] at hAfter

theorem rest_behindFormula {formula after : List Char} (hRest : s.rest = formula ++ '$' :: after)
    (engine : AutoBreak) : ((s.withEngine engine).advance (formula.length + 1)).rest = after := by
  rw [ExpandState.rest_advance]
  change s.rest.drop _ = after
  rw [hRest, List.drop_append]
  simp

/-- A word that goes on behind a formula is part of the word with the formula. -/
theorem word_formula {formula after more : List Char} (hRest : s.rest = formula ++ '$' :: after)
    (hMore : Text.word more <+: Text.word after) :
    Text.word (formula ++ ['$'] ++ more) <+: Text.word s.rest := by
  have hWord := Text.word_append_mono hMore (formula ++ ['$'])
  rwa [List.append_assoc formula ['$'] after, List.singleton_append, ← hRest] at hWord

/-- A formula stands between its two marks. -/
theorem math_redispatched (hs : Passing s) {expansion : Expansion}
    (h : outcome (runHandler env (blockWithin Handler.rendering env fuel) fuel (.builtin .math)
      Spelling.math) s = (.ok expansion, s')) :
    Remains s s' ∧ s'.engine.opened = true ∧
      ∃ text, Redispatched env fuel (.builtin .math) ['$'] s expansion s' text := by
  change outcome math s = _ at h
  obtain ⟨formula, after, hRest, hFormula⟩ := math_ok h
  rw [outcome_math hRest hFormula, hs.orderly.settle, Prod.mk.injEq] at h
  obtain ⟨hExpansion, rfl⟩ := h
  refine ⟨⟨rfl, rfl, rfl, rfl, fun _ => rfl, s.engine.orderly_settled⟩, rfl, formula ++ ['$'],
    fun executed => ?_, ?_, ?_⟩
  · refine ⟨executed, _, math_normalizing hs.orderly hRest hFormula executed, ?_⟩
    simp [Expansion.text, Spelling.math]
  · intro m tail hStep hText
    rw [List.append_assoc] at hText
    refine ⟨0, expansion, (m.withEngine s.engine.settled).advance (formula.length + 1), ?_, rfl,
      ⟨hStep.session, hStep.depth, hStep.target, rfl⟩, ?_⟩
    · change outcome math _ = _
      rw [outcome_math hText hFormula, hStep.engine, hStep.target, hs.orderly.settle_gap,
        hs.orderly.settle, ← hExpansion]
    · exact rest_behindFormula hText _
  · intro more hMore
    rw [ahead_settled s.engine.gap_settled, rest_behindFormula hRest] at hMore
    exact word_formula hRest hMore

/-- Outside of the normalizing pass an evaluation depends on nothing but the values. -/
theorem evaluate_again {block : BlockReader} {rounds : Nat} {values : List String}
    {text : String} (hTarget : s.document.target ≠ .normalize)
    (h : outcome (evaluate env block rounds user values) s = (.ok text, s')) :
    s' = s ∧ ∀ (block' : BlockReader) (rounds' : Nat) (m : ExpandState), m.document.target = s.document.target →
      outcome (evaluate env block' rounds' user values) m = (.ok text, m) := by
  rw [outcome_evaluate block rounds user values hTarget] at h
  refine ⟨?_, fun block' rounds' m hSame => ?_⟩
  · split at h
    · cases h
    · split at h <;> cases h
      rfl
  · rw [outcome_evaluate block' rounds' user values (hSame ▸ hTarget)]
    cases hBody : user.preferredBody? env.evaluator with
    | none =>
        rw [hBody] at h
        cases h
    | some body =>
        rw [hBody] at h
        dsimp only at h ⊢
        split at h
        · cases h
          rfl
        · cases h

/-- What an invocation of a command has done behind its scopes. -/
theorem invoke_passed (hPolicy : user.signature.policy = .wrapInParagraph)
    (hMode : user.signature.mode ≠ .normalize) (hOrderly : s.engine.Orderly) {rounds : Nat}
    {invocation : String} {expansion : Expansion}
    (h : outcome (invoke env block rounds user invocation) s = (.ok expansion, s')) :
    ∃ args middle, outcome (callArgs env block user s.document.reader.indent)
        (s.withEngine s.engine.settled).suspend = (.ok args, middle) ∧
      s' = middle.resume s.engine.enabled ∧
      ∀ {block' : BlockReader} {rounds' : Nat} {others : CallArgs × Bool} {m m' : ExpandState},
        outcome (callArgs env block' user m.document.reader.indent)
          (m.withEngine s.engine.settled).suspend = (.ok others, m') →
        m.engine.settle .wrapInParagraph = s.engine.settle .wrapInParagraph →
        m'.document.target = middle.document.target → others.1 = args.1 →
        user.reemit invocation others.1 others.2 = user.reemit invocation args.1 args.2 →
        outcome (invoke env block' rounds' user invocation) m =
          (.ok expansion, m'.resume s.engine.enabled) := by
  obtain ⟨args, middle, hArgs⟩ := invoke_ok h
  rw [outcome_invoke user invocation hArgs] at h
  rw [hPolicy, hOrderly.settle] at hArgs
  have hEnabled : s.engine.settled.enabled = s.engine.enabled := rfl
  refine ⟨args, middle, hArgs, ?_⟩
  rw [hPolicy, hOrderly.settle, hEnabled] at h
  split at h
  · rename_i hApplies
    have hTarget : (middle.resume s.engine.enabled).document.target ≠ .normalize := by
      intro hNormalize
      have hMiddle : middle.document.target = .normalize := hNormalize
      rw [hMiddle, Mode.appliesTo_normalize hMode] at hApplies
      cases hApplies
    generalize hText : outcome (evaluate env block rounds user args.1.values)
      (middle.resume s.engine.enabled) = result at h
    obtain ⟨_ | text, last⟩ := result
    · cases h
    · cases h
      obtain ⟨rfl, -⟩ := evaluate_again hTarget hText
      refine ⟨rfl, fun {block' rounds' others m m'} hOthers hSettle hSame hValues _ => ?_⟩
      have hAgain := (evaluate_again hTarget hText).2 block' rounds'
        (m'.resume s.engine.enabled) hSame
      rw [← hOrderly.settle, ← hSettle, ← hPolicy] at hOthers
      rw [outcome_invoke user invocation hOthers, hSame, if_pos hApplies, hPolicy, hSettle,
        hOrderly.settle, hEnabled, hValues, hAgain]
  · rename_i hApplies
    cases h
    refine ⟨rfl, fun {block' rounds' others m m'} hOthers hSettle hSame _ hReemit => ?_⟩
    rw [← hOrderly.settle, ← hSettle, ← hPolicy] at hOthers
    rw [outcome_invoke user invocation hOthers, hSame, if_neg hApplies, hPolicy, hSettle,
      hOrderly.settle, hEnabled, hReemit]

/-- A command is its spelling with its scopes. -/
theorem invoke_redispatched (hBlocks : BlocksRewritten env fuel) (hs : Passing s)
    (hKind : user.kind = .command) (hMode : user.signature.mode ≠ .normalize)
    (hPolicy : user.signature.policy = .wrapInParagraph) {key : List Char} {expansion : Expansion}
    (h : outcome (runHandler env (blockWithin Handler.rendering env fuel) fuel (.user user)
      (String.ofList key)) s = (.ok expansion, s')) :
    Remains s s' ∧ s'.engine.opened = true ∧
      ∃ text, Redispatched env fuel (.user user) key s expansion s' text := by
  obtain ⟨args, middle, hArgs, rfl, hSame⟩ := invoke_passed hPolicy hMode hs.orderly h
  have hStart : Passing (s.withEngine s.engine.settled).suspend :=
    ⟨hs.built, hs.deferring, s.engine.orderly_settled.restore rfl false⟩
  obtain ⟨hRemains, written, text, hAgain, hText, hNormal⟩ := callArgs_again hBlocks hStart hKind hArgs
  have hOpened : middle.engine.opened = true := hRemains.opened rfl
  refine ⟨⟨hRemains.session, hRemains.depth, hRemains.target, rfl, fun _ => hOpened,
    hRemains.orderly.restore hOpened _⟩, hOpened, text, fun executed => ?_, ?_, ?_⟩
  · obtain ⟨executed', hWritten⟩ := hNormal executed
    refine ⟨executed', .passthrough (String.ofList s.engine.gap ++
      user.reemit (String.ofList key) written.1 written.2), ?_, ?_⟩
    · have hSettle : (s.normalizing executed).engine.settle user.signature.policy =
          (String.ofList s.engine.gap, s.engine.settled.normalizing) := by
        rw [hPolicy]
        exact hs.orderly.settle_normalizing
      change outcome (invoke env (blockReader env fuel) fuel user _) _ = _
      have hRead : outcome (callArgs env (blockReader env fuel) user
          (s.normalizing executed).document.reader.indent)
            ((s.normalizing executed).withEngine ((s.normalizing executed).engine.settle
              user.signature.policy).2).suspend = (.ok written, middle.normalizing executed') := by
        rw [hSettle]
        exact hWritten
      have hTarget : (middle.normalizing executed').document.target = .normalize := rfl
      rw [outcome_invoke user _ hRead, hTarget, Mode.appliesTo_normalize hMode, if_neg (by decide), hSettle]
      rfl
    · rw [Expansion.text, String.toList_append, hText, String.toList_ofList, String.toList_ofList]
  · intro m tail hStep hRest
    have hSettle : m.engine.settle .wrapInParagraph = s.engine.settle .wrapInParagraph := by
      rw [hStep.engine]
      exact hs.orderly.settle_gap
    have hInStep : InStep (s.withEngine s.engine.settled).suspend
        (m.withEngine s.engine.settled).suspend :=
      ⟨hStep.session, hStep.depth, hStep.target, rfl⟩
    obtain ⟨fuel', others, m', hOthers, hValues, hReemit, hLast, hTail⟩ :=
      hAgain.again m.document.reader.indent hInStep hRest
    refine ⟨fuel', expansion, m'.resume s.engine.enabled,
      hSame hOthers hSettle hLast.target hValues (hReemit _), rfl, ?_, hTail⟩
    exact ⟨hLast.session, hLast.depth, hLast.target, congrArg (AutoBreak.restore _) hLast.engine⟩
  · intro after _
    obtain ⟨c, more, hMore⟩ := List.exists_cons_of_ne_nil
      (show text ≠ [] by rintro rfl; cases hAgain.begins)
    have hBegins := hAgain.begins
    rw [hMore, List.head?_cons, Option.some.injEq] at hBegins
    subst hBegins
    rw [hMore, List.cons_append, Text.word_cons_of_not rfl]
    exact List.nil_prefix

theorem table_math : ∀ entry ∈ Builtin.table, entry.2 = .math → entry.1 = Spelling.math := by
  decide +kernel

theorem table_close : ∀ entry ∈ Builtin.table, entry.1.toList.head? = some '\x7d' →
    entry.2 = .scopeEnd := by
  decide +kernel

/-- Whatever a rendering pass dispatches to is dispatched to again in the text that is
rewritten. -/
theorem handler_redispatched (hBlocks : BlocksRewritten env fuel) (hs : Passing s) {key : List Char}
    {handler : Handler} (hBound : s.session.registry.bound key = some handler)
    (hAllowed : handler.rendering = true) (hComment : handler ≠ .builtin .comment)
    {expansion : Expansion}
    (h : outcome (runHandler env (blockWithin Handler.rendering env fuel) fuel handler
      (String.ofList key)) s = (.ok expansion, s')) :
    (handler ≠ .builtin .escape ∧ key.head? ≠ some '\x7d') ∧ Remains s s' ∧
      s'.engine.opened = true ∧ ∃ text, Redispatched env fuel handler key s expansion s' text := by
  cases handler with
  | builtin builtin =>
      obtain ⟨spelling, hTable, rfl⟩ := hs.built.sound.builtin key builtin hBound
      have hNot : builtin ≠ .escape ∧ builtin ≠ .scopeEnd := by
        constructor <;> rintro rfl <;> cases h
      refine ⟨⟨fun hEscape => hNot.1 (Handler.builtin.inj hEscape), fun hClose => hNot.2 ?_⟩, ?_⟩
      · exact table_close _ hTable hClose
      · cases builtin with
        | escapedChar char =>
            obtain ⟨-, rfl⟩ := Registry.table_escapedChar hTable
            rw [String.ofList_toList] at h
            obtain ⟨hRemains, hOpened, hAgain⟩ := escapedChar_redispatched hs h
            exact ⟨hRemains, hOpened, [], hAgain⟩
        | math =>
            obtain rfl : spelling = Spelling.math := table_math _ hTable rfl
            exact math_redispatched hs h
        | comment => exact absurd rfl hComment
        | escape => cases h
        | scopeBegin => cases h
        | scopeEnd => cases h
        | environmentEnd => cases h
        | environmentBegin =>
            obtain ⟨name, middle, -, hRest⟩ := outcome_bind_ok h
            cases hRest
        | usePackage => cases hAllowed
        | newCommand => cases hAllowed
        | newEnvironment => cases hAllowed
        | paragraph => cases hAllowed
  | user user =>
      obtain ⟨hKind, hMode, hPolicy⟩ := hs.deferring key user hBound
      obtain ⟨rfl, -⟩ := hs.built.sound.user key user hBound
      refine ⟨⟨by simp, ?_⟩, invoke_redispatched hBlocks hs hKind hMode hPolicy h⟩
      rw [hKind, MacroKind.invocation, Spelling.command, String.toList_append]
      intro hClose
      cases hClose

end MacroMarkup.Expand
