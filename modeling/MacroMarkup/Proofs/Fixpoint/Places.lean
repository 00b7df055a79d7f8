import MacroMarkup.Proofs.Fixpoint.Scopes
import MacroMarkup.Proofs.Passes.Places

/-! The places of a round in which nothing fires. Each is a blank to remember, or text that
is written with the blanks that were pending and read again where it is written. -/
namespace MacroMarkup

namespace Registry

/-- The opening of environments is no part of a spelling that a round reads without
anything firing. What is found there depends on the word behind it only. -/
theorem Built.lookup?_repeatable {registry : Registry} (hBuilt : registry.Built)
    {key after after' : List Char} {handler : Handler}
    (hLongest : registry.Longest (key ++ after) key handler) (hEscape : handler ≠ .builtin .escape)
    (hBegin : key ≠ "\\begin".toList) (hCommand : ∀ user, handler = .user user → user.kind = .command)
    (hWord : Text.word after' <+: Text.word after) :
    registry.lookup? (key ++ after') = some (key.length, handler) := by
  refine hBuilt.lookup?_of_word hLongest hEscape hWord fun more user hMatched _ _ hOpening => ?_
  rcases List.append_eq_append_iff.mp hOpening with
    ⟨others, hShorter, hMore⟩ | ⟨others, hLonger, hMore⟩
  · -- The key is a part of the builtin, which the word behind it would complete.
    have hSome : others ≠ [] := by
      rintro rfl
      exact hBegin ((List.append_nil key).symm.trans hShorter.symm)
    have hAll : ∀ c ∈ others, Text.inWord c = true := fun c hMem =>
      (by decide : ∀ c ∈ "\\begin".toList, Text.inWord c = true) c
        (hShorter ▸ List.mem_append_right key hMem)
    have hUnbound := hLongest.unbound_of_word hWord hSome
      (hMore ▸ List.prefix_append others _ |>.trans hMatched) hAll
    have hBound : (registry.bound "\\begin".toList).isSome := hBuilt.isSome_bound_of_mem (by decide)
    rw [hShorter, hUnbound] at hBound
    cases hBound
  · -- The key is itself the opening of an environment, or the start of one.
    cases others with
    | nil => exact hBegin (hLonger.trans (List.append_nil _))
    | cons brace others =>
        obtain ⟨rfl, -⟩ := List.cons.inj hMore
        rcases hBuilt.key_of_mark hLongest.bound (c := '\x7b') (by rw [hLonger]; simp) rfl with
          hAlone | hEscaped | ⟨user', hUser, hKind, -⟩
        · exact absurd (hLonger.symm.trans hAlone) (by simp)
        · exact absurd (hLonger.symm.trans hEscaped) (by simp)
        · rw [hCommand user' hUser] at hKind
          cases hKind

end Registry

/-- No character is escaped like the opening of an environment. -/
theorem EscapedChar.table_begin : ∀ char ∈ table, char.ctx.toList ≠ "\\begin".toList := by
  decide +kernel

namespace Expand

variable {env : Env} {fuel : Nat} {user : UserMacro} {s s' m m' : ExpandState}

/-- What an invocation with this spelling comes to where it does not fire: its spelling
with the blanks that were pending, and some text behind it. It is read again there. -/
structure HandlerAgain (env : Env) (handler : Handler) (key : List Char) (s : ExpandState)
    (expansion : Expansion) (s' : ExpandState) (text : List Char) : Prop where
  written : expansion.text.toList = s.engine.gap ++ (key ++ text)
  again : ∀ {m : ExpandState} {tail : List Char},
    Retraces (s.engine.clearPending.behindBlanks s.engine.gap) s m → m.rest = text ++ tail →
      ∃ fuel m', outcome (runHandler env (blockReader env fuel) fuel handler
        (String.ofList key)) m = (.ok expansion, m') ∧
          Retraces s'.engine.clearPending s' m' ∧ m'.rest = tail
  word : ∀ {after : List Char}, (s'.engine.opened = true → Text.word after <+: s'.ahead) →
    Text.word (text ++ after) <+: Text.word s.rest

/-- An escape in a round without firings is written as it was read. -/
theorem escapedChar_again (hs : InRound s) {char : EscapedChar} {expansion : Expansion}
    (h : outcome (runHandler env (blockReader env fuel) fuel (.builtin (.escapedChar char)) char.ctx) s =
      (.ok expansion, s')) :
    Quiet s s' ∧ HandlerAgain env (.builtin (.escapedChar char)) char.ctx.toList s expansion s' [] := by
  have hRender : char.render .normalize = char.ctx := rfl
  change outcome (escapedChar char char.ctx) s = _ at h
  rw [outcome_escapedChar, hs.muted.settle, hs.target, hRender, if_pos rfl] at h
  cases h
  refine ⟨⟨rfl, rfl, rfl, hs.muted.settledBy _⟩, ?_, fun {m tail} hStep hText => ?_, fun {after} hAfter => ?_⟩
  · simp [Expansion.text]
  · refine ⟨0, m.withEngine (s.engine.settledBy .wrapInParagraph), ?_,
      ⟨⟨hStep.session, hStep.depth, hStep.target, rfl⟩, hStep.executed⟩, hText⟩
    rw [String.ofList_toList]
    change outcome (escapedChar char char.ctx) m = _
    rw [outcome_escapedChar, hStep.engine, hs.muted.settle_again, hStep.target, hs.target, hRender,
      if_pos rfl]
  · have hWord := hAfter rfl
    rwa [ahead_settled (s.engine.gap_settledBy _)] at hWord

/-- A formula is written as it was read. -/
theorem math_again (hs : InRound s) {expansion : Expansion}
    (h : outcome (runHandler env (blockReader env fuel) fuel (.builtin .math) Spelling.math) s =
      (.ok expansion, s')) :
    Quiet s s' ∧ ∃ text, HandlerAgain env (.builtin .math) ['$'] s expansion s' text := by
  have hTarget : ¬ s.document.target = .web := by
    rw [hs.target]
    decide
  change outcome math s = _ at h
  obtain ⟨formula, after, hRest, hFormula⟩ := math_ok h
  rw [outcome_math hRest hFormula, hs.muted.settle, if_neg hTarget] at h
  cases h
  refine ⟨⟨rfl, rfl, rfl, hs.muted.settledBy _⟩, formula ++ ['$'], ?_, fun {m tail} hStep hText => ?_,
    fun {more} hMore => ?_⟩
  · simp [Expansion.text, Spelling.math]
  · rw [List.append_assoc] at hText
    refine ⟨0, (m.withEngine (s.engine.settledBy .wrapInParagraph)).advance (formula.length + 1), ?_,
      ⟨⟨hStep.session, hStep.depth, hStep.target, rfl⟩, hStep.executed⟩, ?_⟩
    · change outcome math m = _
      rw [outcome_math hText hFormula, hStep.engine, hs.muted.settle_again, hStep.target,
        if_neg hTarget]
    · exact rest_behindFormula hText _
  · have hWord := hMore rfl
    rw [ahead_settled (s.engine.gap_settledBy _), rest_behindFormula hRest] at hWord
    exact word_formula hRest hWord

/-- An invocation that is left to a later pass, where the engine is suspended. -/
theorem outcome_invoke_deferred {block : BlockReader} {rounds : Nat} {args : CallArgs × Bool}
    {gap : String} {engine : AutoBreak} (invocation : String)
    (hMode : user.signature.mode ≠ .normalize) (hTarget : s'.document.target = .normalize)
    (hSettle : s.engine.settle user.signature.policy = (gap, engine))
    (hEnabled : engine.enabled = false) (hEnabled' : s'.engine.enabled = false)
    (hArgs : outcome (callArgs env block user s.document.reader.indent) (s.withEngine engine) =
      (.ok args, s')) :
    outcome (invoke env block rounds user invocation) s =
      (.ok (.passthrough (gap ++ user.reemit invocation args.1 args.2)), s') := by
  have hRead : outcome (callArgs env block user s.document.reader.indent)
      (s.withEngine (s.engine.settle user.signature.policy).2).suspend = (.ok args, s') := by
    rw [hSettle, ExpandState.suspend_of_disabled hEnabled, hArgs]
  rw [outcome_invoke user invocation hRead, hTarget, Mode.appliesTo_normalize hMode,
    if_neg (by decide), hSettle, hEnabled, ExpandState.resume_of_disabled hEnabled']

/-- An invocation that does not fire in the normalizing pass is left to a later one. -/
theorem invoke_unfired (hs : InRound s) {rounds : Nat} {invocation : String} {expansion : Expansion}
    (h : outcome (invoke env (blockReader env fuel) rounds user invocation) s = (.ok expansion, s'))
    (hPassed : expansion.firings = 0) :
    user.signature.mode ≠ .normalize ∧ ∃ args,
      outcome (callArgs env (blockReader env fuel) user s.document.reader.indent)
        (s.withEngine (s.engine.settledBy user.signature.policy)) = (.ok args, s') ∧
      expansion = .passthrough (String.ofList s.engine.gap ++
        user.reemit invocation args.1 args.2) := by
  obtain ⟨args, middle, hArgs⟩ := invoke_ok h
  have hOnward := (onward.callArgs env (onward.block env fuel · "") user _).ok hArgs
  have hTarget := hOnward.target.trans hs.target
  have hMode : user.signature.mode ≠ .normalize := by
    intro hMode
    rw [outcome_invoke user invocation hArgs, hMode, hTarget, if_pos (by decide)] at h
    generalize outcome (evaluate env (blockReader env fuel) rounds user _) _ = result at h
    obtain ⟨_ | text, last⟩ := result <;> cases h
    cases hPassed
  have hMuted := hs.muted.settledBy user.signature.policy
  have hSuspended := ExpandState.suspend_of_disabled
    (s := s.withEngine (s.engine.settledBy user.signature.policy)) hMuted.enabled
  rw [hs.muted.settle, hSuspended] at hArgs
  rw [outcome_invoke_deferred invocation hMode hTarget (hs.muted.settle _) hMuted.enabled
    hOnward.enabled hArgs] at h
  cases h
  exact ⟨hMode, args, hArgs, rfl⟩

theorem invoke_again (hBlocks : BlocksRepeated env fuel) (hs : InRound s) (hUser : user.Repeatable)
    {key : List Char} {expansion : Expansion}
    (h : outcome (runHandler env (blockReader env fuel) fuel (.user user) (String.ofList key)) s =
      (.ok expansion, s'))
    (hPassed : expansion.firings = 0) (hStill : s'.document.executed = s.document.executed) :
    user.kind = .command ∧ Quiet s s' ∧
      ∃ text, HandlerAgain env (.user user) key s expansion s' text := by
  obtain ⟨hMode, args, hArgs, rfl⟩ := invoke_unfired hs h hPassed
  have hKind : user.kind = .command := by
    cases hKind : user.kind with
    | command => rfl
    | environment => exact absurd (hUser.environment hKind) hMode
  have hStart : InRound (s.withEngine (s.engine.settledBy user.signature.policy)) :=
    ⟨hs.built, hs.repeatable, hs.target, hs.muted.settledBy _⟩
  obtain ⟨hQuiet, text, hBegins, hReemit, others, hSame, hAgain⟩ :=
    callArgs_repeated hBlocks hStart hKind hArgs hStill (String.ofList key)
  refine ⟨hKind, ⟨hQuiet.session, hQuiet.depth, hQuiet.target, hQuiet.muted⟩, text, ?_,
    fun {m tail} hStep hText => ?_, fun {after} _ => ?_⟩
  · rw [Expansion.text, String.toList_append, hReemit, String.toList_ofList, String.toList_ofList]
  · have hInner : Retraces (s.engine.settledBy user.signature.policy).clearPending
        (s.withEngine (s.engine.settledBy user.signature.policy))
        (m.withEngine (s.engine.settledBy user.signature.policy)) :=
      ⟨⟨hStep.session, hStep.depth, hStep.target, rfl⟩, hStep.executed⟩
    obtain ⟨fuel', m', hOthers, hLast, hTail⟩ := hAgain m.document.reader.indent _ tail hInner hText
    have hSettle := hs.muted.settle_again user.signature.policy
    rw [← hStep.engine] at hSettle
    have hTarget : m'.document.target = .normalize :=
      hLast.target.trans (hQuiet.target.trans hs.target)
    have hEnabled : m'.engine.enabled = false := by
      rw [hLast.engine]
      exact hQuiet.muted.enabled
    refine ⟨fuel', m', ?_, hLast, hTail⟩
    rw [← hSame]
    exact outcome_invoke_deferred _ hMode hTarget hSettle (hs.muted.settledBy _).enabled hEnabled hOthers
  · obtain ⟨c, more, rfl⟩ := List.exists_cons_of_ne_nil (show text ≠ [] by rintro rfl; cases hBegins)
    cases hBegins
    rw [List.cons_append, Text.word_cons_of_not rfl]
    exact List.nil_prefix

/-- Of the builtins only escaped characters and formulas do not fire. -/
theorem builtin_unfired {builtin : Builtin} {block : BlockReader} {invocation : String}
    {expansion : Expansion}
    (h : outcome (runBuiltin env block builtin invocation) s = (.ok expansion, s'))
    (hPassed : expansion.firings = 0) :
    (∃ char, builtin = .escapedChar char) ∨ builtin = .math := by
  cases builtin with
  | escapedChar char => exact .inl ⟨char, rfl⟩
  | math => exact .inr rfl
  | comment =>
      cases h
      cases hPassed
  | paragraph =>
      obtain ⟨contents, middle, -, rfl, -⟩ := paragraph_ok h
      cases hPassed
  | usePackage =>
      obtain ⟨name, middle, -, hRest⟩ := outcome_bind_ok h
      obtain ⟨-, last, -, hPure⟩ := outcome_bind_ok hRest
      cases hPure
      cases hPassed
  | newCommand =>
      obtain ⟨-, last, -, hPure⟩ := outcome_bind_ok h
      cases hPure
      cases hPassed
  | newEnvironment =>
      obtain ⟨-, last, -, hPure⟩ := outcome_bind_ok h
      cases hPure
      cases hPassed
  | environmentBegin =>
      obtain ⟨name, middle, -, hRest⟩ := outcome_bind_ok h
      cases hRest
  | escape => cases h
  | scopeBegin => cases h
  | scopeEnd => cases h
  | environmentEnd => cases h

/-- What may be read without firing: no lone escape, no closing brace and no opening of an
environment. -/
structure Readable (key : List Char) (handler : Handler) : Prop where
  notEscape : handler ≠ .builtin .escape
  notClose : key.head? ≠ some '\x7d'
  notBegin : key ≠ "\\begin".toList
  command : ∀ user, handler = .user user → user.kind = .command

theorem handler_again (hBlocks : BlocksRepeated env fuel) (hs : InRound s) {key : List Char}
    {handler : Handler} (hBound : s.session.registry.bound key = some handler)
    {expansion : Expansion}
    (h : outcome (runHandler env (blockReader env fuel) fuel handler (String.ofList key)) s =
      (.ok expansion, s'))
    (hPassed : expansion.firings = 0) (hStill : s'.document.executed = s.document.executed) :
    Readable key handler ∧ Quiet s s' ∧
      ∃ text, HandlerAgain env handler key s expansion s' text := by
  cases handler with
  | builtin builtin =>
      obtain ⟨spelling, hTable, rfl⟩ := hs.built.sound.builtin key builtin hBound
      rcases builtin_unfired h hPassed with ⟨char, rfl⟩ | rfl
      · obtain ⟨hMem, rfl⟩ := Registry.table_escapedChar hTable
        rw [String.ofList_toList] at h
        obtain ⟨hQuiet, hAgain⟩ := escapedChar_again hs h
        refine ⟨⟨by simp, fun hClose => ?_, EscapedChar.table_begin char hMem, by simp⟩, hQuiet, [], hAgain⟩
        cases table_close _ hTable hClose
      · obtain rfl : spelling = Spelling.math := table_math _ hTable rfl
        exact ⟨⟨by simp, by decide, by decide, by simp⟩, math_again hs h⟩
  | user user =>
      have hUser := hs.repeatable key user hBound
      obtain ⟨hKind, hAgain⟩ := invoke_again hBlocks hs hUser h hPassed hStill
      obtain ⟨rfl, -⟩ := hs.built.sound.user key user hBound
      refine ⟨⟨by simp, ?_, ?_, fun other hOther => ?_⟩, hAgain⟩
      · rw [hKind, MacroKind.invocation, Spelling.command, String.toList_append]
        intro hClose
        cases hClose
      · rw [hKind, MacroKind.invocation, Spelling.command, String.toList_append]
        intro hBegin
        exact hUser.notBegin hKind (List.cons.inj hBegin).2
      · cases hOther
        exact hKind

/-! Places. -/

/-- A place is read again where its output stands. What counts of the text behind it is the
word that it starts with. -/
structure PlaceAgain (env : Env) (s : ExpandState) (piece : String) (s' : ExpandState) : Prop where
  word : ∀ {after : List Char}, (s'.engine.opened = true → Text.word after <+: s'.ahead) →
    s.engine.opened = true → Text.word (piece.toList ++ after) <+: s.ahead
  again : ∀ {m : ExpandState} {tail : List Char}, Retraces s.engine.clearPending s m →
    m.rest = piece.toList ++ tail → (s'.engine.opened = true → Text.word tail <+: s'.ahead) →
      ∃ m', Reads env m piece m' ∧ Retraces s'.engine.clearPending s' m' ∧ m'.rest = tail

/-- Visible text is written with the blanks that were pending before it. -/
theorem PlaceAgain.of_visible (hs : InRound s) {piece : String} {c : Char} (item : List Char)
    (hBrace : c ≠ '\x7d') (hPiece : piece.toList = s.engine.gap ++ c :: item)
    (hWord : ∀ {after : List Char}, (s'.engine.opened = true → Text.word after <+: s'.ahead) →
      Text.word (c :: item ++ after) <+: Text.word s.rest)
    (hAgain : ∀ {m : ExpandState} {tail : List Char},
      Retraces (s.engine.clearPending.behindBlanks s.engine.gap) s m → m.rest = c :: item ++ tail →
        (s'.engine.opened = true → Text.word tail <+: s'.ahead) →
          ∃ fuel m', outcome (place env (blockReader env fuel) fuel) m = (.ok piece, m') ∧
            Retraces s'.engine.clearPending s' m' ∧ m'.rest = tail) :
    PlaceAgain env s piece s' := by
  refine ⟨fun {after} hAfter _ => ?_, fun {m tail} hStep hText hTail => ?_⟩
  · rw [hPiece, List.append_assoc]
    exact word_gap (hWord hAfter)
  · rw [hPiece, List.append_assoc] at hText
    have hBuilt : m.session.registry.Built := by
      rw [hStep.session]
      exact hs.built
    have hRest := rest_behindBlanks hText (m.engine.behindBlanks s.engine.gap)
    have hLevel : Retraces (s.engine.clearPending.behindBlanks s.engine.gap) s
        ((m.withEngine (m.engine.behindBlanks s.engine.gap)).advance s.engine.gap.length) :=
      ⟨⟨hStep.session, hStep.depth, hStep.target, congrArg (AutoBreak.behindBlanks _) hStep.engine⟩,
        hStep.executed⟩
    obtain ⟨fuel', m', hPlace, hLast, hEnd⟩ := hAgain hLevel hRest hTail
    exact ⟨m', .behindBlanks s.engine.spacing_gap hBuilt hText hBrace hPlace, hLast, hEnd⟩

/-- A blank is read into the gap. -/
theorem blank_again (hs : InRound s) {c : Char} (hBlank : c = ' ' ∨ c = '\n') :
    Quiet s ((s.withEngine (s.engine.behindBlanks [c])).advance 1) ∧
      PlaceAgain env s "" ((s.withEngine (s.engine.behindBlanks [c])).advance 1) := by
  obtain ⟨hMuted, hGap⟩ := hs.muted.behindBlank hBlank
  refine ⟨⟨rfl, rfl, rfl, hMuted⟩, fun {after} hAfter hOpen => ?_, fun {m tail} hStep hText _ => ?_⟩
  · exact word_behindBlank (hGap hOpen) (hAfter ((s.engine.opened_behindBlanks [c]).trans hOpen))
  · refine ⟨m, .refl m, ⟨⟨hStep.session, hStep.depth, hStep.target, ?_⟩, hStep.executed⟩, hText⟩
    rw [hStep.engine]
    exact (s.engine.clearPending_behindBlanks [c]).symm

/-- A character is written behind the gap in front of it. -/
theorem literal_again (hs : InRound s) {c : Char} {text : List Char} (hRest : s.rest = c :: text)
    (hLiteral : s.session.registry.lookup? (c :: text) = none) {piece : String}
    (h : outcome (literal c) s = (.ok piece, s')) : Quiet s s' ∧ PlaceAgain env s piece s' := by
  have hMark := hs.built.unmarked_of_literal hLiteral
  rw [outcome_literal] at h
  by_cases hBlank : c = ' ' ∨ c = '\n'
  · rw [AutoBreak.process_blank hBlank] at h
    cases h
    exact blank_again hs hBlank
  · have hVisible := not_or.mp hBlank
    rw [hs.muted.process hVisible] at h
    cases h
    have hBrace : c ≠ '\x7d' := by
      rintro rfl
      exact hMark (by decide)
    refine ⟨⟨rfl, rfl, rfl, hs.muted.settledBy _⟩, .of_visible hs [] hBrace (by simp) ?_ ?_⟩
    · intro after hAfter
      have hWord := hAfter rfl
      rw [ahead_settled (s.engine.gap_settledBy _), rest_behindBlank hRest] at hWord
      rw [hRest]
      exact Text.word_append_mono hWord [c]
    · intro m tail hStep hText _
      refine ⟨0, (m.withEngine (s.engine.settledBy .wrapInParagraph)).advance 1, ?_,
        ⟨⟨hStep.session, hStep.depth, hStep.target, rfl⟩, hStep.executed⟩, rest_behindBlank hText _⟩
      rw [outcome_place env _ 0 hText, hStep.session, hs.built.lookup?_literal hLiteral]
      dsimp only
      rw [outcome_literal, hStep.engine, hs.muted.process_again hVisible]

/-- An invocation is written with its spelling, which is found again. -/
theorem dispatch_again (hBlocks : BlocksRepeated env fuel) (hs : InRound s) {length : Nat}
    {handler : Handler} (hFound : s.session.registry.lookup? s.rest = some (length, handler))
    {piece : String}
    (h : outcome (dispatch env (blockReader env fuel) fuel handler length) s = (.ok piece, s'))
    (hStill : s'.document.executed = s.document.executed) :
    Quiet s s' ∧ PlaceAgain env s piece s' := by
  obtain ⟨hDepth, expansion, middle, hHandler, rfl, rfl⟩ := dispatch_ok h
  obtain ⟨key, hLongest, rfl⟩ := hs.built.wellFormed.longest_of_lookup? hFound
  have hTake : s.rest.take key.length = key := (List.prefix_iff_eq_take.mp hLongest.matched).symm
  rw [hTake] at hHandler
  have hFires : (s.entered key.length).document.executed ≤ middle.document.executed :=
    (fires.runHandler env (fires.block env fuel · "") fuel handler _).ok hHandler
  have hEnteredCount : (s.entered key.length).document.executed = s.document.executed := rfl
  have hCount : middle.document.executed + expansion.firings = s.document.executed := hStill
  have hPassed : expansion.firings = 0 := by omega
  have hMiddle : middle.document.executed = s.document.executed := by omega
  have hEntered : InRound (s.entered key.length) := ⟨hs.built, hs.repeatable, hs.target, hs.muted⟩
  obtain ⟨hReadable, hQuiet, text, hAgain⟩ :=
    handler_again hBlocks hEntered hLongest.bound hHandler hPassed hMiddle
  have hLevel : middle.document.depth - 1 = s.document.depth := by
    rw [hQuiet.depth]
    rfl
  obtain ⟨after, hAfter⟩ := hLongest.matched
  have hBehind : (s.entered key.length).rest = after := ExpandState.rest_entered hAfter.symm
  obtain ⟨c, more, hKey⟩ := List.exists_cons_of_ne_nil hLongest.ne_nil
  have hBrace : c ≠ '\x7d' := by
    rintro rfl
    exact hReadable.notClose (by rw [hKey]; rfl)
  refine ⟨⟨hQuiet.session, hLevel, hQuiet.target, hQuiet.muted⟩,
    .of_visible hs (more ++ text) hBrace ?_ ?_ ?_⟩
  · rw [hAgain.written, hKey]
    rfl
  · intro others hOthers
    have hWord := Text.word_append_mono (hAgain.word hOthers) key
    rw [hBehind, hAfter, hKey, List.cons_append] at hWord
    rwa [List.cons_append, List.append_assoc]
  · intro m tail hStep hText hTail
    have hSplit : m.rest = key ++ (text ++ tail) := by
      rw [hText, hKey, List.cons_append, List.append_assoc]
      rfl
    have hLookup : m.session.registry.lookup? m.rest = some (key.length, handler) := by
      have hWord := hAgain.word hTail
      rw [hBehind] at hWord
      rw [← hAfter] at hLongest
      rw [hStep.session, hSplit]
      exact hs.built.lookup?_repeatable hLongest hReadable.notEscape hReadable.notBegin
        hReadable.command hWord
    have hInner : (m.entered key.length).rest = text ++ tail := ExpandState.rest_entered hSplit
    have hLevelAgain : Retraces ((s.entered key.length).engine.clearPending.behindBlanks
        (s.entered key.length).engine.gap) (s.entered key.length) (m.entered key.length) :=
      ⟨⟨hStep.session, congrArg (· + 1) hStep.depth, hStep.target, hStep.engine⟩, hStep.executed⟩
    obtain ⟨fuel', m', hOutcome, hLast, hEnd⟩ := hAgain.again hLevelAgain hInner
    have hTakeAgain : m.rest.take key.length = key := by rw [hSplit, List.take_left]
    refine ⟨fuel', m'.exited expansion.firings, ?_, ⟨⟨hLast.session, congrArg (· - 1) hLast.depth,
      hLast.target, hLast.engine⟩, congrArg (· + _) hLast.executed⟩, hEnd⟩
    rw [outcome_place_dispatch env _ fuel' (by rw [hText]; simp) hLookup,
      outcome_dispatch fuel' handler key.length (by rw [hStep.depth]; exact hDepth), hTakeAgain,
      hOutcome]

/-- The step of the run law: a place that does not fire is read again as it is written. -/
theorem place_again (hBlocks : BlocksRepeated env fuel) (hs : InRound s) (hSome : s.rest ≠ [])
    {piece : String} (h : outcome (place env (blockReader env fuel) fuel) s = (.ok piece, s'))
    (hStill : s'.document.executed = s.document.executed) :
    Quiet s s' ∧ PlaceAgain env s piece s' := by
  obtain ⟨c, text, hRest⟩ := List.exists_cons_of_ne_nil hSome
  rw [outcome_place env _ fuel hRest] at h
  cases hLookup : s.session.registry.lookup? (c :: text) with
  | none =>
      rw [hLookup] at h
      exact literal_again hs hRest hLookup h
  | some found =>
      obtain ⟨length, handler⟩ := found
      rw [hLookup] at h
      rw [← hRest] at hLookup
      exact dispatch_again hBlocks hs hLookup h hStill

end Expand

end MacroMarkup
