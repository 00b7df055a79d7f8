import MacroMarkup.Proofs.Expand.Growth
import MacroMarkup.Proofs.Expand.Steps
import MacroMarkup.Proofs.Registry.Match

/-! What the normalizing pass makes of a text. If all macros are tame, nothing in
its result can fire any more in that pass, however the result is put together with
other such text. -/
namespace MacroMarkup

namespace AutoBreak

/-- The markers of the engine are blanks. -/
def Blank (engine : AutoBreak) : Prop :=
  Text.Spacing engine.beginMarker.toList ∧ Text.Spacing engine.endMarker.toList

variable {engine : AutoBreak}

/-- The markers of the normalizing pass are blanks. -/
theorem blank_ofTarget : (ofTarget .normalize).Blank := by
  unfold Blank
  decide

theorem blank_disabled {target : Target} (h : target = .normalize) : (disabled target).Blank := by
  subst h
  exact blank_ofTarget

/-- Closing writes blanks alone. -/
theorem Blank.close (h : engine.Blank) : Text.Spacing engine.close.1.toList := by
  unfold AutoBreak.close
  split
  · split
    · exact h.2
    · exact Text.spacing_nil
  · exact Text.spacing_nil

theorem Blank.start (h : engine.Blank) : Text.Spacing engine.start.1.toList := by
  unfold AutoBreak.start
  split
  · exact h.1
  · exact Text.spacing_nil

theorem Blank.flush (h : engine.Blank) : Text.Spacing engine.flush.1.toList := by
  unfold AutoBreak.flush
  split
  · exact Text.spacing_nil
  · split
    · exact h.close
    · dsimp only
      split <;> decide

/-- The markers stay blank under every move. -/
theorem Blank.later {engine' : AutoBreak} (h : engine.Blank) (hMove : Move engine engine') :
    engine'.Blank := by
  unfold Blank
  rw [hMove.kept.2.1, hMove.kept.2.2]
  exact h

theorem Blank.ensureOpen (h : engine.Blank) (reopen : Bool) :
    Text.Spacing (engine.ensureOpen reopen).1.toList := by
  unfold AutoBreak.ensureOpen
  split
  · split
    · dsimp only
      rw [String.toList_append]
      exact h.close.append (h.later (.close engine)).start
    · exact Text.spacing_nil
  · exact h.start

/-- Settling a paragraph writes blanks alone. -/
theorem Blank.settle (h : engine.Blank) (policy : BreakPolicy) :
    Text.Spacing (engine.settle policy).1.toList := by
  have hFlushed := h.later (.flush engine)
  unfold AutoBreak.settle
  cases policy with
  | wrapInParagraph =>
      dsimp only
      rw [String.toList_append]
      exact h.flush.append (hFlushed.ensureOpen false)
  | leaveParagraph =>
      dsimp only
      rw [String.toList_append]
      exact h.flush.append hFlushed.close

/-- A literal character comes out as it is, behind blanks, or not at all. -/
theorem Blank.process (h : engine.Blank) (c : Char) :
    (engine.process c).1.toList = [] ∨
      ∃ blanks, Text.Spacing blanks ∧ (engine.process c).1.toList = blanks ++ [c] := by
  have hEnding : Text.Spacing (if engine.begun then engine.endMarker else "").toList := by
    split
    · exact h.2
    · exact Text.spacing_nil
  unfold AutoBreak.process
  split
  · exact .inl rfl
  · split
    · exact .inl rfl
    · refine .inr ?_
      unfold AutoBreak.processVisible
      dsimp only
      split
      · split
        · exact ⟨_, h.1, by rw [String.toList_append, String.toList_singleton]⟩
        · exact ⟨[], Text.spacing_nil, String.toList_singleton c⟩
      · split
        · exact ⟨[' '], by decide, by rw [String.toList_append, String.toList_singleton]; rfl⟩
        · split
          · refine ⟨_, hEnding.append h.1, ?_⟩
            rw [String.toList_append, String.toList_append, String.toList_singleton]
          · exact ⟨[], Text.spacing_nil, String.toList_singleton c⟩

end AutoBreak

namespace Expand

/-- Inert text is running text, or the scopes of an invocation together with
what each parameter says of its argument. -/
inductive Shape where
  | running
  | scopes (verbatim : List Bool)

/-- Text in which no macro fires: characters, escaped characters, formulas, and
commands of a later pass with their scopes. -/
inductive Inert (registry : Registry) : Shape → List Char → Prop where
  | nil : Inert registry .running []
  | char {c : Char} {text : List Char} : c ∉ ['\\', '\x7b', '\x7d', '%', '$'] →
      Inert registry .running text → Inert registry .running (c :: text)
  | escaped {c : Char} {text : List Char} : c ∈ Registry.escapable →
      Inert registry .running text → Inert registry .running ('\\' :: c :: text)
  | formula {formula text : List Char} : '$' ∉ formula →
      Inert registry .running text → Inert registry .running ('$' :: (formula ++ '$' :: text))
  | deferred {user : UserMacro} {scopes text : List Char} :
      registry.bound ('\\' :: user.name.toList) = some (.user user) → user.kind = .command →
      user.signature.mode ≠ .normalize → user.signature.verbatim ≠ [] →
      Inert registry (.scopes user.signature.verbatim) scopes →
      Inert registry .running text →
      Inert registry .running ('\\' :: (user.name.toList ++ (scopes ++ text)))
  | deferredBare {user : UserMacro} {text : List Char} :
      registry.bound ('\\' :: user.name.toList) = some (.user user) → user.kind = .command →
      user.signature.mode ≠ .normalize → user.signature.verbatim = [] →
      Inert registry .running text →
      Inert registry .running ('\\' :: (user.name.toList ++ '\x7b' :: '\x7d' :: text))
  | noScopes : Inert registry (.scopes []) []
  | verbatimScope {content scopes : List Char} {verbatim : List Bool} : '\x7d' ∉ content →
      Inert registry (.scopes verbatim) scopes →
      Inert registry (.scopes (true :: verbatim)) ('\x7b' :: (content ++ '\x7d' :: scopes))
  | parsedScope {content scopes : List Char} {verbatim : List Bool} :
      Inert registry .running content → Inert registry (.scopes verbatim) scopes →
      Inert registry (.scopes (false :: verbatim)) ('\x7b' :: (content ++ '\x7d' :: scopes))

theorem Inert.append {registry : Registry} {text text' : List Char}
    (h : Inert registry .running text) (h' : Inert registry .running text') :
    Inert registry .running (text ++ text') := by
  generalize hShape : Shape.running = shape at h
  induction h with
  | nil => exact h'
  | char hMark _ ih => exact .char hMark (ih hShape)
  | escaped hEscapable _ ih => exact .escaped hEscapable (ih hShape)
  | formula hFormula _ ih =>
      rw [List.cons_append, List.append_assoc, List.cons_append]
      exact .formula hFormula (ih hShape)
  | deferred hBound hKind hMode hVerbatim hScopes _ _ ih =>
      rw [List.cons_append, List.append_assoc, List.append_assoc]
      exact .deferred hBound hKind hMode hVerbatim hScopes (ih hShape)
  | deferredBare hBound hKind hMode hVerbatim _ ih =>
      rw [List.cons_append, List.append_assoc, List.cons_append, List.cons_append]
      exact .deferredBare hBound hKind hMode hVerbatim (ih hShape)
  | noScopes => cases hShape
  | verbatimScope => cases hShape
  | parsedScope => cases hShape

/-- Text that was inert stays so when macros are defined. -/
theorem Inert.extends {registry registry' : Registry} {shape : Shape} {text : List Char}
    (h : Inert registry shape text) (hExtends : registry.Extends registry') :
    Inert registry' shape text := by
  induction h with
  | nil => exact .nil
  | char hMark _ ih => exact .char hMark ih
  | escaped hEscapable _ ih => exact .escaped hEscapable ih
  | formula hFormula _ ih => exact .formula hFormula ih
  | @deferred user _ _ hBound hKind hMode hVerbatim _ _ ihScopes ih =>
      obtain ⟨bodies, hLater⟩ := hExtends _ user hBound
      exact @Inert.deferred _ { user with bodies } _ _ hLater hKind hMode hVerbatim ihScopes ih
  | @deferredBare user _ hBound hKind hMode hVerbatim _ ih =>
      obtain ⟨bodies, hLater⟩ := hExtends _ user hBound
      exact @Inert.deferredBare _ { user with bodies } _ hLater hKind hMode hVerbatim ih
  | noScopes => exact .noScopes
  | verbatimScope hContent _ ih => exact .verbatimScope hContent ih
  | parsedScope _ _ ihContent ih => exact .parsedScope ihContent ih

/-- Text without marks is inert. -/
theorem Inert.ofUnmarked {registry : Registry} {text : List Char}
    (h : ∀ c ∈ text, c ∉ ['\\', '\x7b', '\x7d', '%', '$']) : Inert registry .running text := by
  induction text with
  | nil => exact .nil
  | cons c text ih =>
      exact .char (h c List.mem_cons_self) (ih fun d hd => h d (List.mem_cons_of_mem c hd))

theorem Inert.ofSpacing {registry : Registry} {text : List Char} (h : Text.Spacing text) :
    Inert registry .running text := by
  refine .ofUnmarked fun c hMem => ?_
  rcases h c hMem with rfl | rfl <;> decide

/-- A character is escaped by a backslash, or is written without any mark. -/
theorem table_ctx : ∀ char ∈ EscapedChar.table,
    (∃ c ∈ Registry.escapable, char.ctx.toList = ['\\', c]) ∨
      ∀ c ∈ char.ctx.toList, c ∉ ['\\', '\x7b', '\x7d', '%', '$'] := by
  decide +kernel

/-- The escape of a character is inert. -/
theorem Inert.ofEscapedChar {registry : Registry} {char : EscapedChar}
    (h : char ∈ EscapedChar.table) : Inert registry .running char.ctx.toList := by
  rcases table_ctx char h with ⟨c, hEscapable, hSpelling⟩ | hUnmarked
  · rw [hSpelling]
    exact .escaped hEscapable .nil
  · exact .ofUnmarked hUnmarked

/-! The normalizing pass, whose paragraph markers are blanks. -/

/-- A state of the normalizing pass. -/
structure Normalizing (s : ExpandState) : Prop where
  built : s.session.registry.Built
  target : s.document.target = .normalize
  blank : s.engine.Blank

theorem Normalizing.later {s s' : ExpandState} (h : Normalizing s) (hCalm : Calm s s') :
    Normalizing s' :=
  ⟨(hCalm.2 h.built).1, hCalm.1.target.trans h.target, by
    unfold AutoBreak.Blank
    rw [hCalm.1.beginMarker, hCalm.1.endMarker]
    exact h.blank⟩

/-- The registry behind a run extends the one in front of it. -/
theorem Normalizing.extends {s s' : ExpandState} (h : Normalizing s) (hCalm : Calm s s') :
    s.session.registry.Extends s'.session.registry :=
  (hCalm.2 h.built).2

/-- A reader of blocks whose results are inert, as long as all macros are tame. -/
structure InertReader (block : BlockReader) : Prop where
  calm : ∀ marker?, Keeps Calm Calm (block marker?)
  inert : ∀ {marker? s s' text}, Normalizing s → outcome (block marker?) s = (.ok text, s') →
    s'.session.registry.Tame → Inert s'.session.registry .running text.toList

section Results

variable {env : Env} {block : BlockReader} {rounds : Nat} {s s' : ExpandState}

/-- A literal character comes out as text without marks. -/
theorem Normalizing.literal (hs : Normalizing s) {c : Char} {after : List Char}
    (hLiteral : s.session.registry.lookup? (c :: after) = none) {text : String}
    (h : outcome (literal c) s = (.ok text, s')) :
    Inert s'.session.registry .running text.toList := by
  have hMark : c ∉ ['\\', '\x7b', '\x7d', '%', '$'] := hs.built.unmarked_of_literal hLiteral
  rw [outcome_literal] at h
  cases h
  rcases hs.blank.process c with hText | ⟨blanks, hBlanks, hText⟩
  · rw [hText]
    exact .nil
  · rw [hText]
    exact (Inert.ofSpacing hBlanks).append (.char hMark .nil)

variable (hBlock : InertReader block)
include hBlock

/-- A scope comes out inert, if what is read in it does. -/
theorem InertReader.parsedScope (hs : Normalizing s) {text : String}
    (h : outcome (parsedScope env block) s = (.ok text, s')) (hTame : s'.session.registry.Tame) :
    Inert s'.session.registry .running text.toList := by
  obtain ⟨-, -, middle, -, hContents, rfl⟩ := parsedScope_ok h
  have hEntered : Normalizing (s.entered 1) := ⟨hs.built, hs.target, hs.blank⟩
  have hInner := hBlock.inert hEntered hContents
  exact hInner hTame

/-- The scopes of a deferred command, written out again, are inert. -/
theorem InertReader.arguments (hs : Normalizing s) {flags : List Bool} {values : List String}
    (h : outcome (flags.mapM (Expand.argument env block)) s = (.ok values, s'))
    (hTame : s'.session.registry.Tame) :
    Inert s'.session.registry (.scopes flags)
      (String.join (values.map Spelling.braced)).toList := by
  induction flags generalizing s values with
  | nil =>
      cases h
      exact .noScopes
  | cons flag flags ih =>
      rw [List.mapM_cons] at h
      obtain ⟨value, middle, hValue, hRest⟩ := outcome_bind_ok h
      obtain ⟨others, last, hOthers, hPure⟩ := outcome_bind_ok hRest
      cases hPure
      have hMiddle := hs.later ((Expand.calm.argument env hBlock.calm flag).always hValue)
      have hExtends := hMiddle.extends
        ((Expand.calm.mapM (Expand.calm.argument env hBlock.calm) flags).always hOthers)
      have hScopes := ih hMiddle hOthers
      rw [List.map_cons, String.join_cons, String.toList_append, toList_braced, List.cons_append,
        List.append_assoc]
      cases flag with
      | true =>
          obtain ⟨-, -, hContent, -⟩ := verbatimScope_ok hValue
          exact .verbatimScope hContent hScopes
      | false =>
          have hContent := hBlock.parsedScope hs hValue (hExtends.tame hTame)
          exact .parsedScope (hContent.extends hExtends) hScopes

/-- Rounds read documents of their own, whatever paragraphs the document at hand
has. -/
theorem InertReader.round (hBuilt : s.session.registry.Built)
    (hTarget : s.document.target = .normalize) {text : String} {result : String × Nat}
    (h : outcome (Expand.round block text) s = (.ok result, s')) (hTame : s'.session.registry.Tame) :
    Inert s'.session.registry .running result.1.toList := by
  obtain ⟨output, middle, hOutput, rfl, rfl⟩ := round_ok h
  have hStart : Normalizing (s.withDocument (s.document.generated text)) :=
    ⟨hBuilt, hTarget, AutoBreak.blank_disabled hTarget⟩
  have hInert := hBlock.inert hStart hOutput hTame
  have hMiddle := hStart.later ((hBlock.calm none).always hOutput)
  rw [String.toList_append]
  exact Inert.append hInert (.ofSpacing hMiddle.blank.close)

/-- The last of the rounds comes out inert. -/
theorem InertReader.toFixpoint (hBuilt : s.session.registry.Built)
    (hTarget : s.document.target = .normalize) {text result : String}
    (h : outcome (Expand.toFixpoint block rounds text) s = (.ok result, s'))
    (hTame : s'.session.registry.Tame) : Inert s'.session.registry .running result.toList := by
  induction rounds generalizing s text with
  | zero => cases h
  | succ rounds ih =>
      obtain ⟨⟨output, fired⟩, middle, hRound, hRest⟩ := outcome_bind_ok h
      dsimp only at hRest
      split at hRest
      · cases hRest
        exact hBlock.round hBuilt hTarget hRound hTame
      · have hCalm := (Expand.calm.round hBlock.calm text).always hRound
        exact ih (hCalm.2 hBuilt).1 (hCalm.1.target.trans hTarget) hRest

theorem InertReader.evaluate (hBuilt : s.session.registry.Built)
    (hTarget : s.document.target = .normalize) {user : UserMacro} {values : List String}
    {result : String} (h : outcome (Expand.evaluate env block rounds user values) s = (.ok result, s'))
    (hTame : s'.session.registry.Tame) : Inert s'.session.registry .running result.toList := by
  unfold Expand.evaluate at h
  split at h
  · cases h
  · obtain ⟨text, middle, hText, hRest⟩ := outcome_bind_ok h
    have hCalm := (Expand.calm.located _).always hText
    have hTarget' : middle.document.target = .normalize := hCalm.1.target.trans hTarget
    rw [outcome_bind_of_ok (outcome_document middle), if_pos hTarget'] at hRest
    exact hBlock.toFixpoint (hCalm.2 hBuilt).1 hTarget' hRest hTame

/-- A command of a later pass stands for itself, with its scopes expanded. -/
theorem InertReader.reemit (hs : Normalizing s) {user : UserMacro} (hKind : user.kind = .command)
    {args : CallArgs × Bool} {indent : Nat}
    (h : outcome (callArgs env block user indent) s = (.ok args, s'))
    (hTame : s'.session.registry.Tame) (hMode : user.signature.mode ≠ .normalize)
    {bodies : Bodies}
    (hBound : s'.session.registry.bound ('\\' :: user.name.toList) =
      some (.user { user with bodies }))
    {invocation : String} (hInvocation : invocation.toList = '\\' :: user.name.toList) :
    Inert s'.session.registry .running (user.reemit invocation args.1 args.2).toList := by
  rcases callArgs_command_ok hKind h with ⟨hNone, hArgs, -⟩ | ⟨hSome, scopes, hScopes, rfl, hRead⟩
  · have hEmpty : (args.2 || (user.kind = .command && args.1.scopes.isEmpty)) = true := by
      simp [hKind, hArgs]
    unfold UserMacro.reemit
    rw [hEmpty, hArgs, if_pos rfl, List.map_nil, String.join_nil, String.append_empty,
      String.append_empty, String.toList_append, hInvocation]
    exact @Inert.deferredBare _ { user with bodies } _ hBound hKind hMode hNone .nil
  · have hInert := hBlock.arguments hs hRead hTame
    have hFull : (false || (user.kind = .command && scopes.isEmpty)) = false := by
      simp [List.isEmpty_eq_false_iff.mpr hScopes]
    unfold UserMacro.reemit
    dsimp only
    rw [hFull, if_neg (by decide), String.append_empty, String.append_empty, String.toList_append,
      hInvocation]
    have hDeferred := @Inert.deferred _ { user with bodies } _ _ hBound hKind hMode hSome hInert .nil
    rwa [List.append_nil] at hDeferred

/-- What an invocation of a macro puts out. -/
theorem InertReader.invoke (hs : Normalizing s) {user : UserMacro} {invocation : String}
    (hInvocation : invocation.toList = (user.kind.invocation user.name).toList)
    (hBound : s.session.registry.bound invocation.toList = some (.user user))
    {expansion : Expansion}
    (h : outcome (Expand.invoke env block rounds user invocation) s = (.ok expansion, s'))
    (hTame : s'.session.registry.Tame) :
    Inert s'.session.registry .running expansion.text.toList := by
  obtain ⟨args, middle, hArgs⟩ := invoke_ok h
  rw [outcome_invoke user invocation hArgs] at h
  have hSettled := hs.later ((Expand.calm.settleParagraph user.signature.policy).always
    (outcome_settleParagraph _ s))
  have hSuspended : Normalizing (s.withEngine (s.engine.settle user.signature.policy).2).suspend :=
    ⟨hs.built, hs.target, hSettled.blank⟩
  have hCalm := (Expand.calm.callArgs env hBlock.calm user _).always hArgs
  have hMiddle := hSuspended.later hCalm
  have hMarker := hs.blank.settle user.signature.policy
  rw [hMiddle.target] at h
  by_cases hMode : user.signature.mode.appliesTo .normalize
  · rw [if_pos hMode] at h
    generalize hEvaluate : outcome (Expand.evaluate env block rounds user args.1.values) _ = result at h
    obtain ⟨_ | text, last⟩ := result
    · cases h
    · cases h
      rw [Expansion.text, String.toList_append]
      have hText := hBlock.evaluate
        (s := middle.resume (s.engine.settle user.signature.policy).2.enabled)
        hMiddle.built hMiddle.target hEvaluate hTame
      exact (Inert.ofSpacing hMarker).append hText
  · rw [if_neg hMode] at h
    cases h
    have hExtends := hSuspended.extends hCalm
    obtain ⟨bodies, hLater⟩ := hExtends _ user hBound
    have hDeferred : user.signature.mode ≠ .normalize := fun hEq => hMode (by rw [hEq]; rfl)
    have hKind : user.kind = .command := by
      cases hKind : user.kind with
      | command => rfl
      | environment => exact absurd ((hTame _ _ hLater).environment hKind) hDeferred
    have hSpelling : invocation.toList = '\\' :: user.name.toList := by
      rw [hInvocation, hKind, MacroKind.invocation, Spelling.command, String.toList_append]
      rfl
    rw [hSpelling] at hLater
    rw [Expansion.text, String.toList_append]
    exact (Inert.ofSpacing hMarker).append
      (hBlock.reemit hSuspended hKind hArgs hTame hDeferred hLater hSpelling)

/-- Every builtin comes out inert: it is gone, or escaped, or a formula. -/
theorem InertReader.builtin (hs : Normalizing s) {builtin : Builtin} {spelling : String}
    (hTable : (spelling, builtin) ∈ Builtin.table) {expansion : Expansion}
    (h : outcome (runBuiltin env block builtin spelling) s = (.ok expansion, s'))
    (hTame : s'.session.registry.Tame) :
    Inert s'.session.registry .running expansion.text.toList := by
  cases builtin with
  | escape => cases h
  | escapedChar char =>
      have h' : outcome (escapedChar char spelling) s = (.ok expansion, s') := h
      rw [outcome_escapedChar, hs.target] at h'
      have hText : expansion.text = (s.engine.settle .wrapInParagraph).1 ++ char.ctx := by
        cases h'
        split <;> rfl
      rw [hText, String.toList_append]
      exact (Inert.ofSpacing (hs.blank.settle _)).append (.ofEscapedChar (Registry.table_escapedChar hTable).1)
  | comment => cases h; exact .nil
  | scopeBegin => cases h
  | scopeEnd => cases h
  | usePackage =>
      obtain ⟨name, middle, -, hRest⟩ := outcome_bind_ok h
      obtain ⟨u, last, -, hPure⟩ := outcome_bind_ok hRest
      cases hPure
      exact .nil
  | newCommand =>
      obtain ⟨u, last, -, hPure⟩ := outcome_bind_ok h
      cases hPure
      exact .nil
  | newEnvironment =>
      obtain ⟨u, last, -, hPure⟩ := outcome_bind_ok h
      cases hPure
      exact .nil
  | environmentBegin =>
      obtain ⟨name, middle, -, hRest⟩ := outcome_bind_ok h
      cases hRest
  | environmentEnd => cases h
  | paragraph =>
      obtain ⟨contents, middle, hScope, rfl, rfl⟩ := paragraph_ok h
      have hOpened := hs.later ((Expand.calm.withAutoBreak (AutoBreak.Move.ensureOpen true)).always
        (outcome_withAutoBreak _ s))
      have hSuspended : Normalizing (s.withEngine (s.engine.ensureOpen true).2).suspend :=
        ⟨hs.built, hs.target, hOpened.blank⟩
      have hContents := hBlock.parsedScope hSuspended hScope
      rw [Expansion.text, String.toList_append]
      exact (Inert.ofSpacing (hs.blank.ensureOpen true)).append (hContents hTame)
  | math =>
      have h' : outcome math s = (.ok expansion, s') := h
      obtain ⟨formula, after, hRest, hFormula⟩ := math_ok h'
      rw [outcome_math hRest hFormula, hs.target, if_neg (by decide)] at h'
      cases h'
      have hText : ((s.engine.settle .wrapInParagraph).1 ++ Spelling.math ++ String.ofList formula ++
          Spelling.math).toList =
            (s.engine.settle .wrapInParagraph).1.toList ++ '$' :: (formula ++ ['$']) := by
        rw [String.toList_append, String.toList_append, String.toList_append, String.toList_ofList,
          List.append_assoc, List.append_assoc]
        rfl
      rw [Expansion.text, hText]
      exact (Inert.ofSpacing (hs.blank.settle _)).append (.formula hFormula .nil)

/-- An invocation comes out inert, evaluated or written again. -/
theorem InertReader.dispatch (hs : Normalizing s) {length : Nat} {handler : Handler}
    (hFound : s.session.registry.lookup? s.rest = some (length, handler)) {text : String}
    (h : outcome (Expand.dispatch env block rounds handler length) s = (.ok text, s'))
    (hTame : s'.session.registry.Tame) : Inert s'.session.registry .running text.toList := by
  obtain ⟨-, expansion, middle, hRun, rfl, rfl⟩ := dispatch_ok h
  obtain ⟨key, hLongest, rfl⟩ := hs.built.wellFormed.longest_of_lookup? hFound
  have hKey : s.rest.take key.length = key := (List.prefix_iff_eq_take.mp hLongest.matched).symm
  rw [hKey] at hRun
  have hEntered : Normalizing (s.entered key.length) := ⟨hs.built, hs.target, hs.blank⟩
  cases handler with
  | builtin builtin =>
      obtain ⟨spelling, hTable, rfl⟩ := hs.built.sound.builtin key builtin hLongest.bound
      rw [String.ofList_toList] at hRun
      have hText := hBlock.builtin hEntered hTable hRun
      exact hText hTame
  | user user =>
      obtain ⟨hKey, -⟩ := hs.built.sound.user key user hLongest.bound
      have hSpelling : (String.ofList key).toList = key := String.toList_ofList
      have hBound : s.session.registry.bound (String.ofList key).toList = some (.user user) := by
        rw [hSpelling]
        exact hLongest.bound
      have hText := hBlock.invoke hEntered (hSpelling.trans hKey) hBound hRun
      exact hText hTame

/-- The step of the run law: each place comes out inert. -/
theorem InertReader.place (hs : Normalizing s) {text : String}
    (h : outcome (Expand.place env block rounds) s = (.ok text, s'))
    (hTame : s'.session.registry.Tame) : Inert s'.session.registry .running text.toList := by
  cases hRest : s.rest with
  | nil =>
      unfold Expand.place at h
      rw [outcome_bind_of_ok (outcome_rest s), hRest] at h
      cases h
      exact .nil
  | cons c after =>
      rw [outcome_place env block rounds hRest] at h
      generalize hFound : s.session.registry.lookup? (c :: after) = found at h
      cases found with
      | none => exact hs.literal hFound h
      | some found => exact hBlock.dispatch hs (hRest ▸ hFound) h hTame

omit hBlock

/-- The induction is on the fuel. What one place puts out stays inert while the
places behind it define macros. -/
theorem block_inert (env : Env) (fuel : Nat) {marker? : Option (List Char)} {output text : String}
    (hs : Normalizing s) (h : outcome (Expand.block env fuel marker? output) s = (.ok text, s'))
    (hTame : s'.session.registry.Tame) :
    ∃ piece, text = output ++ piece ∧ Inert s'.session.registry .running piece.toList := by
  induction fuel generalizing marker? output s s' text with
  | zero => cases h
  | succ fuel ih =>
      by_cases hRest : s.rest = []
      · cases marker? with
        | none =>
            rw [outcome_block_atEnd env fuel output hRest] at h
            cases h
            exact ⟨"", String.append_empty.symm, .nil⟩
        | some marker =>
            rw [outcome_block_unterminated env fuel marker output hRest] at h
            cases h
      · by_cases hMarker : endsAt marker? s.rest
        · obtain ⟨marker, rfl, hPrefix⟩ := hMarker
          rw [outcome_block_marker env fuel output hRest hPrefix] at h
          cases h
          exact ⟨"", String.append_empty.symm, .nil⟩
        · rw [outcome_block_place env fuel output hRest hMarker] at h
          obtain ⟨piece, middle, hPlace, hLater⟩ := outcome_bind_ok h
          have hReader : InertReader fun marker? => Expand.block env fuel marker? "" := by
            refine ⟨fun marker? => calm.block env fuel marker? "", fun {_ _ _ _} hs h hTame => ?_⟩
            obtain ⟨piece, rfl, hPiece⟩ := ih hs h hTame
            rwa [String.empty_append]
          have hMiddle := hs.later ((calm.place env hReader.calm fuel).always hPlace)
          have hExtends := hMiddle.extends ((calm.block env fuel marker? _).always hLater)
          obtain ⟨others, rfl, hOthers⟩ := ih hMiddle hLater hTame
          have hPiece := hReader.place hs hPlace (hExtends.tame hTame)
          refine ⟨piece ++ others, String.append_assoc, ?_⟩
          rw [String.toList_append]
          exact (hPiece.extends hExtends).append hOthers

end Results

/-- The blocks of the normalizing pass come out inert. -/
theorem inertReader (env : Env) (fuel : Nat) : InertReader (blockReader env fuel) := by
  refine ⟨fun marker? => calm.block env fuel marker? "", fun {_ _ _ _} hs h hTame => ?_⟩
  obtain ⟨piece, rfl, hPiece⟩ := block_inert env fuel hs h hTame
  rwa [String.empty_append]

end Expand

end MacroMarkup
