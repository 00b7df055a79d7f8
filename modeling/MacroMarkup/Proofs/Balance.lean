import MacroMarkup.Proofs.Emission
import MacroMarkup.Proofs.Expand.Guarded
import MacroMarkup.Proofs.Expand.Growth
import MacroMarkup.Proofs.Substitution

/-! Paragraph markers in web output. They alternate as long as no invocation inside an
argument ends the paragraph that its marker was emitted for. -/
namespace MacroMarkup

open Text (Markup Plain)

/-! Substitution brings no marker about. -/

/-- Code without the mark stays without it, if the arguments have none. -/
theorem plain_substitute {code : String} (hCode : '<' ∉ code.toList) {params args : List String}
    (hArgs : ∀ arg ∈ args, Plain arg.toList) : Plain (substitute code params args).toList := by
  have hReplaced := substitute_eq_iff.mp (rfl : substitute code params args = _)
  generalize code.toList = text at hCode hReplaced
  generalize (substitute code params args).toList = output at hReplaced
  induction hReplaced with
  | nil => exact Text.plain_nil
  | literal _ _ ih =>
      rw [List.mem_cons, not_or] at hCode
      exact .cons (Ne.symm hCode.1) (ih hCode.2)
  | reference hLongest _ ih =>
      rw [List.mem_cons, List.mem_append, not_or, not_or] at hCode
      have hMem := List.of_mem_zip (mem_of_argument? hLongest.bound)
      exact (hArgs _ hMem.2).append (ih hCode.2.2)
  | mark _ _ ih =>
      rw [List.mem_cons, not_or] at hCode
      exact .cons (by decide) (ih hCode.2)

/-- Raw evaluation puts the values in place of the parameters. -/
theorem raw_ok {name : String} {body : MacroBody} {values : List String} {text : String}
    (h : Evaluator.raw.evaluate name body values = .ok text) :
    text = substitute body.code body.params values := by
  unfold Evaluator.raw at h
  dsimp only at h
  split at h
  · simp only [bind, Except.bind] at h
    split at h
    · cases h
    · cases h
      rfl
  · cases h

/-- Handlers that end the paragraph around their invocation. -/
def Handler.closes : Handler → Bool
  | .builtin .paragraph => true
  | .builtin _ => false
  | .user called => called.signature.policy = .leaveParagraph

/-- The arguments that are passed on as they are written. -/
def CallArgs.verbatim (flags : List Bool) (args : CallArgs) : List String :=
  ((flags.zip args.scopes).filter (·.1)).map (·.2) ++ args.body.toList

namespace Expand

variable {env : Env} {block : BlockReader} {s s' : ExpandState} {user : UserMacro}

/-- A state of the pass for web output. -/
structure InWeb (s : ExpandState) : Prop where
  built : s.session.registry.Built
  target : s.document.target = .web
  engine : s.engine.ForWeb

/-- Later, with macros added, and with an end marker owed only in a paragraph. -/
def Paged (s s' : ExpandState) : Prop :=
  Calm s s' ∧ KeepsEngine AutoBreak.Owing s s'

/-- Everything keeps it so that an end marker is owed only in a paragraph. -/
theorem paged : Law Paged Paged :=
  calm.and keepsOwing

/-- A later state is one of the pass for web output as well. -/
theorem InWeb.later (h : InWeb s) (hLater : Paged s s') : InWeb s' := by
  obtain ⟨⟨hOnward, hGrown⟩, hOwing⟩ := hLater
  exact ⟨(hGrown h.built).1, hOnward.target.trans h.target,
    hOnward.beginMarker ▸ h.engine.beginMarker, hOnward.endMarker ▸ h.engine.endMarker,
    hOwing h.engine.owing⟩

/-- Where arguments are read. -/
theorem InWeb.calling (h : InWeb s) {engine : AutoBreak} (hEngine : engine.ForWeb) :
    InWeb (s.withEngine engine).suspend :=
  ⟨h.built, h.target, hEngine.beginMarker, hEngine.endMarker, hEngine.owing⟩

/-- Reads blocks of web output. -/
structure WebReader (block : BlockReader) : Prop where
  keeps : ∀ marker?, Keeps Paged Paged (block marker?)
  emits : ∀ {marker? : Option (List Char)} {s s' : ExpandState} {text : String}, InWeb s →
    outcome (block marker?) s = (.ok text, s') → s.engine.Emits s'.engine text.toList

/-- What only reads text or adds to the session leaves the paragraph engine alone. -/
theorem unmoving : ReadingLaw (fun s s' => s'.engine = s.engine) fun _ _ _ => True where
  refl _ := rfl
  trans h h' := h'.trans h
  failing _ _ _ _ := trivial
  following _ _ _ _ _ _ := trivial
  reading _ _ := rfl
  defining _ _ _ _ _ _ _ _ := rfl
  loading _ _ := rfl

/-- A library has an engine of its own. -/
theorem unmoved_readLibrary (env : Env) (block : BlockReader) (path : String) :
    Keeps (fun s s' => s'.engine = s.engine) (fun _ _ => True) (readLibrary env block path) := by
  unfold readLibrary
  split
  · exact unmoving.fail _
  · dsimp only
    split
    · exact fun s => trivial
    · refine unmoving.bind unmoving.document fun current =>
        unmoving.bind (fun s => ?_) fun _ => unmoving.pure _
      rw [outcome_onDocument]
      generalize outcome (wholeDocument block) _ = result
      obtain ⟨_ | _, last⟩ := result
      · trivial
      · rfl

/-- Libraries are read apart, with an engine of their own. -/
theorem unmoved_includeLibrary (env : Env) (block : BlockReader) (name : String) :
    Keeps (fun s s' => s'.engine = s.engine) (fun _ _ => True) (includeLibrary env block name) := by
  refine unmoving.bind unmoving.document fun current => ?_
  dsimp only
  split
  · exact unmoving.fail _
  · refine unmoving.bind (unmoving.markLoaded _) fun isNew => ?_
    split
    · exact unmoved_readLibrary env block _
    · exact unmoving.pure _

/-! Arguments are read with markers suspended. -/

/-- An argument is read with the engine suspended, so that its value holds no marker and the
paragraph stays as it was. -/
theorem argument_plain (hBlock : WebReader block) (hs : InWeb s)
    (hSuspended : s.engine.enabled = false) {verbatim : Bool} {value : String}
    (hValue : verbatim = true → '<' ∉ value.toList)
    (h : outcome (argument env block verbatim) s = (.ok value, s')) :
    s'.engine.begun = s.engine.begun ∧ Plain value.toList := by
  cases verbatim with
  | true =>
      have hUnmoved : s'.engine = s.engine := unmoving.verbatimScope.ok h
      exact ⟨congrArg AutoBreak.begun hUnmoved, Text.plain_of_not_mem (hValue rfl)⟩
  | false =>
      obtain ⟨-, text, middle, -, hRead, rfl⟩ := parsedScope_ok h
      have hEntered : InWeb (s.entered 1) := ⟨hs.built, hs.target, hs.engine⟩
      exact (hBlock.emits hEntered hRead).suspended hSuspended

theorem arguments_plain (hBlock : WebReader block) (hs : InWeb s)
    (hSuspended : s.engine.enabled = false) {flags : List Bool} {values : List String}
    (hValues : ∀ entry ∈ flags.zip values, entry.1 = true → '<' ∉ entry.2.toList)
    (h : outcome (flags.mapM (argument env block)) s = (.ok values, s')) :
    s'.engine.begun = s.engine.begun ∧ ∀ value ∈ values, Plain value.toList := by
  induction flags generalizing s values with
  | nil =>
      cases h
      exact ⟨rfl, fun _ hMem => nomatch hMem⟩
  | cons flag flags ih =>
      rw [List.mapM_cons] at h
      obtain ⟨value, middle, hValue, hRest⟩ := outcome_bind_ok h
      obtain ⟨others, last, hOthers, hPure⟩ := outcome_bind_ok hRest
      cases hPure
      rw [List.zip_cons_cons, List.forall_mem_cons] at hValues
      obtain ⟨hBegun, hPlain⟩ := argument_plain hBlock hs hSuspended hValues.1 hValue
      have hLater := (paged.argument env hBlock.keeps flag).ok hValue
      obtain ⟨hBegun', hOthers⟩ := ih (hs.later hLater)
        (hLater.1.1.enabled.trans hSuspended) hValues.2 hOthers
      exact ⟨hBegun'.trans hBegun, List.forall_mem_cons.mpr ⟨hPlain, hOthers⟩⟩

theorem callArgs_plain (hBlock : WebReader block) (hs : InWeb s)
    (hSuspended : s.engine.enabled = false) (hProper : user.Proper) {indent : Nat}
    {args : CallArgs × Bool}
    (hVerbatim : ∀ value ∈ args.1.verbatim user.signature.verbatim, '<' ∉ value.toList)
    (h : outcome (callArgs env block user indent) s = (.ok args, s')) :
    s'.engine.begun = s.engine.begun ∧ ∀ value ∈ args.1.values, Plain value.toList := by
  have hScopes : ∀ {scopes : List String} {body : Option String},
      args.1 = ⟨scopes, body⟩ → ∀ entry ∈ user.signature.verbatim.zip scopes, entry.1 = true →
        '<' ∉ entry.2.toList := by
    intro scopes body hArgs entry hMem hFlag
    refine hVerbatim entry.2 ?_
    rw [hArgs]
    exact List.mem_append_left _ (List.mem_map_of_mem (List.mem_filter.mpr ⟨hMem, hFlag⟩))
  cases hKind : user.kind with
  | command =>
      rcases callArgs_command_ok hKind h with ⟨-, hArgs, hEmpty⟩ | ⟨-, scopes, -, rfl, hRead⟩
      · have hUnmoved : s'.engine = s.engine := unmoving.emptyScope.ok hEmpty
        rw [hArgs]
        exact ⟨congrArg AutoBreak.begun hUnmoved, fun _ hMem => absurd hMem List.not_mem_nil⟩
      · obtain ⟨hBegun, hPlain⟩ := arguments_plain hBlock hs hSuspended (hScopes rfl) hRead
        refine ⟨hBegun, fun value hMem => hPlain value ?_⟩
        simpa [CallArgs.values] using hMem
  | environment =>
      have hLast := hProper.encloses hKind
      have hFlags : user.signature.verbatim ≠ [] := by
        intro hNil
        rw [hNil] at hLast
        cases hLast
      obtain ⟨scopes, body, middle, rfl, hRead, hBody⟩ := callArgs_environment_ok hKind hFlags h
      have hZip : ∀ entry ∈ user.signature.verbatim.dropLast.zip scopes, entry.1 = true →
          '<' ∉ entry.2.toList := by
        intro entry hMem
        obtain ⟨place, hPlace⟩ := List.mem_iff_getElem?.mp hMem
        rw [List.getElem?_zip_eq_some, List.getElem?_dropLast] at hPlace
        split at hPlace
        · exact hScopes rfl entry (List.mem_of_getElem? (List.getElem?_zip_eq_some.mpr hPlace))
        · cases hPlace.1
      obtain ⟨hBegun, hPlain⟩ := arguments_plain hBlock hs hSuspended hZip hRead
      have hUnmoved : s'.engine = middle.engine := (unmoving.environmentBody _ _).ok hBody
      refine ⟨(congrArg AutoBreak.begun hUnmoved).trans hBegun, fun value hMem => ?_⟩
      rcases List.mem_append.mp hMem with hScope | hEnclosed
      · exact hPlain value hScope
      · exact Text.plain_of_not_mem (hVerbatim value (List.mem_append_right _ hEnclosed))

/-! What an invocation comes to. -/

theorem plain_braced {text : String} (h : Plain text.toList) : Plain (Spelling.braced text).toList := by
  rw [toList_braced]
  exact .cons (by decide) (h.append (.cons (by decide) Text.plain_nil))

theorem plain_scopes {values : List String} (h : ∀ value ∈ values, Plain value.toList) :
    Plain (String.join (values.map Spelling.braced)).toList := by
  induction values with
  | nil => exact Text.plain_nil
  | cons value values ih =>
      rw [List.forall_mem_cons] at h
      rw [List.map_cons, String.join_cons, String.toList_append]
      exact (plain_braced h.1).append (ih h.2)

/-- The opening or closing of an environment. -/
theorem plain_delimiter {marker name : String} {word text : List Char}
    (hMarker : marker.toList = '\\' :: word) (hWord : '\n' ∉ word) (hName : '\n' ∉ name.toList)
    (h : Plain text) : Plain ((marker ++ Spelling.braced name).toList ++ text) := by
  have hSpelled : '\n' ∉ word ++ '\x7b' :: name.toList := by
    simp [hWord, hName]
  have hBrace : Plain ('\x7d' :: text) := .cons (by decide) h
  rw [String.toList_append, toList_braced, hMarker]
  simpa using hBrace.name hSpelled rfl (by decide)

/-- An invocation that is kept has its spelling in front of a brace. -/
theorem plain_reemit (hProper : user.Proper) {args : CallArgs} {emptyScope : Bool}
    (hValues : ∀ value ∈ args.values, Plain value.toList) :
    Plain (user.reemit (user.kind.invocation user.name) args emptyScope).toList := by
  have hName : '\n' ∉ user.name.toList := by
    intro hMem
    exact absurd (hProper.spelled _ hMem).1 (by decide)
  unfold UserMacro.reemit
  extract_lets scopes empty enclosed
  have hScopes : Plain scopes.toList :=
    plain_scopes fun value hMem => hValues value (List.mem_append_left _ hMem)
  have hEmpty : Plain empty.toList := by
    unfold empty
    split <;> exact Text.plain_of_not_mem (by decide)
  have hEnclosed : Plain enclosed.toList := by
    unfold enclosed
    split
    · rename_i body hBody
      have hPlain := hValues body (List.mem_append_right _ (by simp [hBody]))
      have hClosing : Plain (Spelling.closeEnvironment user.name).toList := by
        rw [← List.append_nil (String.toList _)]
        exact plain_delimiter rfl (by decide) hName Text.plain_nil
      simp only [String.toList_append]
      exact (((Text.plain_of_not_mem (by decide)).append hPlain).append
        (Text.plain_of_not_mem (by decide))).append hClosing
    · exact Text.plain_nil
  have hBehind : Plain (scopes ++ (empty ++ enclosed)).toList := by
    rw [String.toList_append, String.toList_append]
    exact hScopes.append (hEmpty.append hEnclosed)
  rw [String.append_assoc, String.append_assoc, String.toList_append]
  cases hKind : user.kind with
  | command =>
      have hBrace : (scopes ++ (empty ++ enclosed)).toList.head? = some '\x7b' := by
        cases hScopes : args.scopes with
        | nil => simp [scopes, empty, hKind, hScopes, Spelling.emptyScope, toList_braced]
        | cons value values => simp [scopes, hScopes, toList_braced]
      rw [MacroKind.invocation, Spelling.command, String.toList_append]
      exact hBehind.name hName hBrace (by decide)
  | environment => exact plain_delimiter rfl (by decide) hName hBehind

/-- In a rendering pass a raw macro comes to its code with plain values in it. -/
theorem plain_evaluate (hRaw : env.evaluator = Evaluator.raw) {rounds : Nat} {values : List String}
    (hBody : ∀ body ∈ user.preferredBody? env.evaluator, '<' ∉ body.code.toList)
    (hValues : ∀ value ∈ values, Plain value.toList) {text : String}
    (h : outcome (evaluate env block rounds user values) s = (.ok text, s'))
    (hTarget : s.document.target ≠ .normalize) :
    s' = s ∧ Plain text.toList := by
  rw [outcome_evaluate block rounds user values hTarget] at h
  split at h
  · cases h
  · rename_i body hPreferred
    rw [hRaw] at h
    have hCode := hBody body hPreferred
    split at h
    · rename_i result hResult
      cases h
      rw [raw_ok hResult]
      exact ⟨rfl, plain_substitute hCode hValues⟩
    · cases h

/-! Places of a document. -/

/-- The entities of escaped characters are no markers. -/
theorem plain_render {char : EscapedChar} (hTable : char ∈ EscapedChar.table) :
    Plain (char.render .web).toList := by
  have hAll : ∀ char ∈ EscapedChar.table, '<' ∉ char.web.toList := by decide +kernel
  exact Text.plain_of_not_mem (hAll char hTable)

/-- The first character of a closing marker is never literal text. -/
theorem literal_ne (hBuilt : s.session.registry.Built) {c : Char} {text : List Char}
    (h : s.session.registry.lookup? (c :: text) = none) : c ≠ '<' := by
  rintro rfl
  have hTable : ['<'] ∈ Builtin.table.map (·.1.toList) := by decide +kernel
  have hNone := hBuilt.wellFormed.bound_eq_none_of_lookup? h (by simp) (List.prefix_append ['<'] text)
  have hSome := hBuilt.isSome_bound_of_mem hTable
  rw [hNone] at hSome
  cases hSome

/-- A character emits the paragraph that it opens, and itself. -/
theorem emits_literal (hs : InWeb s) {c : Char} (hChar : c ≠ '<') {text : String}
    (h : outcome (literal c) s = (.ok text, s')) : s.engine.Emits s'.engine text.toList := by
  rw [outcome_literal] at h
  cases h
  exact hs.engine.emits_process hChar

/-- What the invocation that was entered is about to put out as it is written: the body
of a macro, its verbatim arguments, or a formula. -/
def unread (env : Env) (block : BlockReader) (s : ExpandState) : Handler → List String
  | .builtin .math => [String.ofList (s.rest.takeWhile (· ≠ '$'))]
  | .builtin _ => []
  | .user called =>
    ((called.preferredBody? env.evaluator).map (·.code)).toList ++
      match (outcome (callArgs env block called s.document.reader.indent)
        (s.withEngine (s.engine.settle called.signature.policy).2).suspend).1 with
      | .ok args => args.1.verbatim called.signature.verbatim
      | .error _ => []

/-- Whether none of that holds the first character of a closing marker. -/
def unmarked (env : Env) (block : BlockReader) (s : ExpandState) : Bool :=
  match s.session.registry.lookup? s.rest with
  | none => true
  | some (length, handler) =>
    (unread env block (s.entered length) handler).all (!·.toList.contains '<')

/-- Whether the paragraph is only ended where no end marker is owed, or where markers are
emitted. -/
def closable (s : ExpandState) : Bool :=
  match s.session.registry.lookup? s.rest with
  | none => true
  | some (_, handler) => !handler.closes || s.engine.MayClose

/-- Plain text inside a paragraph emits no more than the settling in front of it. -/
theorem emits_wrapped (hs : InWeb s) {text : List Char} (h : Plain text) :
    s.engine.Emits (s.engine.settle .wrapInParagraph).2
      ((s.engine.settle .wrapInParagraph).1.toList ++ text) := by
  have hSettled : s.engine.Emits (s.engine.settle .wrapInParagraph).2
      (s.engine.settle .wrapInParagraph).1.toList :=
    hs.engine.emits_settle fun hPolicy => nomatch hPolicy
  exact hSettled.append_plain rfl h

/-- A formula is written as it is, in a paragraph. -/
theorem emits_math (hs : InWeb s) (hUnmarked : '<' ∉ s.rest.takeWhile (· ≠ '$'))
    {expansion : Expansion} (h : outcome math s = (.ok expansion, s')) :
    s.engine.Emits s'.engine expansion.text.toList := by
  obtain ⟨formula, after, hRest, hFormula⟩ := math_ok h
  have hTaken : s.rest.takeWhile (· ≠ '$') = formula := by
    have hAll : ∀ c ∈ formula, decide (c ≠ '$') = true := fun c hMem =>
      decide_eq_true (ne_of_mem_of_not_mem hMem hFormula)
    rw [hRest, List.takeWhile_append_of_pos hAll]
    simp
  rw [outcome_math hRest hFormula, if_pos hs.target] at h
  cases h
  have hPlain : Plain ("\\(".toList ++ formula ++ "\\)".toList) :=
    Text.plain_of_not_mem (by simpa using hTaken ▸ hUnmarked)
  have hEmits := emits_wrapped hs hPlain
  have hText : (s.engine.settle .wrapInParagraph).1.toList ++
      ("\\(".toList ++ formula ++ "\\)".toList) =
        ((s.engine.settle .wrapInParagraph).1 ++ Spelling.mathBeginWeb ++ String.ofList formula ++
          Spelling.mathEndWeb).toList := by
    simp [Spelling.mathBeginWeb, Spelling.mathEndWeb]
  exact hText ▸ hEmits

/-- A paragraph that is asked for emits the marker of the one it closes. -/
theorem emits_paragraph (hBlock : WebReader block) (hs : InWeb s)
    (hClose : s.engine.MayClose = true) {expansion : Expansion}
    (h : outcome (paragraph env block) s = (.ok expansion, s')) :
    s.engine.Emits s'.engine expansion.text.toList := by
  obtain ⟨contents, middle, hScope, rfl, rfl⟩ := paragraph_ok h
  have hOpened : s.engine.Emits (s.engine.ensureOpen true).2 (s.engine.ensureOpen true).1.toList :=
    hs.engine.emits_ensureOpen fun _ => hClose
  have hCalling := hs.calling (hs.engine.move (.ensureOpen true s.engine))
  have hArgument : outcome (argument env block false)
      (s.withEngine (s.engine.ensureOpen true).2).suspend = (.ok contents, middle) := hScope
  have hParsed : false = true → '<' ∉ contents.toList := fun hVerbatim => nomatch hVerbatim
  obtain ⟨hBegun, hPlain⟩ := argument_plain hBlock hCalling rfl hParsed hArgument
  rw [Expansion.text, String.toList_append]
  exact hOpened.append_plain hBegun hPlain

/-- An invocation emits what settles the paragraph in front of it, and plain text. -/
theorem emits_invoke (hRaw : env.evaluator = Evaluator.raw) (hBlock : WebReader block)
    (hs : InWeb s) (hProper : user.Proper)
    (hClose : user.signature.policy = .leaveParagraph → s.engine.MayClose = true)
    (hBody : ∀ body ∈ user.preferredBody? env.evaluator, '<' ∉ body.code.toList)
    (hVerbatim : ∀ {args middle}, outcome (callArgs env block user s.document.reader.indent)
        (s.withEngine (s.engine.settle user.signature.policy).2).suspend = (.ok args, middle) →
      ∀ value ∈ args.1.verbatim user.signature.verbatim, '<' ∉ value.toList)
    {rounds : Nat} {expansion : Expansion}
    (h : outcome (invoke env block rounds user (user.kind.invocation user.name)) s =
      (.ok expansion, s')) :
    s.engine.Emits s'.engine expansion.text.toList := by
  obtain ⟨args, middle, hArgs⟩ := invoke_ok h
  rw [outcome_invoke user _ hArgs] at h
  have hSettled := hs.engine.emits_settle hClose
  have hCalling := hs.calling (hs.engine.settle user.signature.policy)
  obtain ⟨hBegun, hPlain⟩ := callArgs_plain hBlock hCalling rfl hProper (hVerbatim hArgs) hArgs
  have hMiddle := hCalling.later ((paged.callArgs env hBlock.keeps user _).ok hArgs)
  split at h
  · split at h
    · rename_i text last hEvaluate
      cases h
      have hTarget : middle.document.target ≠ .normalize := by
        rw [hMiddle.target]
        decide
      obtain ⟨rfl, hText⟩ := plain_evaluate hRaw hBody hPlain hEvaluate hTarget
      rw [Expansion.text, String.toList_append]
      exact hSettled.append_plain hBegun hText
    · cases h
  · cases h
    rw [Expansion.text, String.toList_append]
    exact hSettled.append_plain hBegun (plain_reemit hProper hPlain)

/-- What each builtin emits is accounted for, given what its text and engine must be. -/
theorem emits_runBuiltin (hBlock : WebReader block) (hs : InWeb s) {builtin : Builtin}
    (hMath : builtin = .math → '<' ∉ s.rest.takeWhile (· ≠ '$'))
    (hParagraph : builtin = .paragraph → s.engine.MayClose = true)
    (hTable : ∀ char, builtin = .escapedChar char → char ∈ EscapedChar.table)
    {invocation : String} {expansion : Expansion}
    (h : outcome (runBuiltin env block builtin invocation) s = (.ok expansion, s')) :
    s.engine.Emits s'.engine expansion.text.toList := by
  cases builtin with
  | escape => cases h
  | escapedChar char =>
      change outcome (escapedChar char invocation) s = _ at h
      rw [outcome_escapedChar, hs.target] at h
      have hEmits := emits_wrapped hs (plain_render (hTable char rfl))
      split at h
      all_goals
        cases h
        rw [Expansion.text, String.toList_append]
        exact hEmits
  | comment =>
      change outcome comment s = _ at h
      rw [outcome_comment] at h
      cases h
      exact .of_plain Text.plain_nil rfl
  | scopeBegin => cases h
  | scopeEnd => cases h
  | usePackage =>
      obtain ⟨name, middle, hName, hRest⟩ := outcome_bind_ok h
      obtain ⟨u, last, hLibrary, hPure⟩ := outcome_bind_ok hRest
      cases hPure
      have hUnmoved : s'.engine = s.engine :=
        ((unmoved_includeLibrary env block _).ok hLibrary).trans (unmoving.verbatimScope.ok hName)
      exact .of_plain Text.plain_nil (congrArg AutoBreak.begun hUnmoved)
  | newCommand =>
      obtain ⟨u, middle, hDefine, hPure⟩ := outcome_bind_ok h
      cases hPure
      exact .of_plain Text.plain_nil (congrArg AutoBreak.begun ((unmoving.define _).ok hDefine))
  | newEnvironment =>
      obtain ⟨u, middle, hDefine, hPure⟩ := outcome_bind_ok h
      cases hPure
      exact .of_plain Text.plain_nil (congrArg AutoBreak.begun ((unmoving.define _).ok hDefine))
  | environmentBegin =>
      obtain ⟨name, middle, hName, hFail⟩ := outcome_bind_ok h
      cases hFail
  | environmentEnd => cases h
  | paragraph => exact emits_paragraph hBlock hs (hParagraph rfl) h
  | math => exact emits_math hs (hMath rfl) h

/-- An invocation that was entered by one of its spellings. -/
theorem emits_runHandler (hRaw : env.evaluator = Evaluator.raw) (hBlock : WebReader block)
    (hs : InWeb s) {handler : Handler} {key : List Char}
    (hBound : s.session.registry.bound key = some handler)
    (hUnread : ∀ text ∈ unread env block s handler, '<' ∉ text.toList)
    (hCloses : handler.closes = true → s.engine.MayClose = true) {rounds : Nat}
    {expansion : Expansion}
    (h : outcome (runHandler env block rounds handler (String.ofList key)) s =
      (.ok expansion, s')) :
    s.engine.Emits s'.engine expansion.text.toList := by
  cases handler with
  | builtin builtin =>
      refine emits_runBuiltin hBlock hs ?_ ?_ ?_ h
      · rintro rfl
        simpa [unread] using hUnread
      · rintro rfl
        exact hCloses rfl
      · rintro char rfl
        obtain ⟨spelling, hMem, -⟩ := hs.built.sound.builtin key _ hBound
        exact (Registry.table_escapedChar hMem).1
  | user called =>
      obtain ⟨rfl, hProper⟩ := hs.built.sound.user key called hBound
      rw [String.ofList_toList] at h
      unfold unread at hUnread
      rw [List.forall_mem_append] at hUnread
      refine emits_invoke hRaw hBlock hs hProper (fun hPolicy => hCloses ?_) (fun body hBody => ?_)
        (fun hArgs => ?_) h
      · simp [Handler.closes, hPolicy]
      · rw [Option.mem_def] at hBody
        exact hUnread.1 body.code (by simp [hBody])
      · simpa only [hArgs] using hUnread.2

/-- The step of the run law: one place emits what it does to the engine. -/
theorem emits_place (hRaw : env.evaluator = Evaluator.raw) (hBlock : WebReader block)
    (hs : InWeb s) (hUnmarked : unmarked env block s = true) (hClosable : closable s = true)
    {rounds : Nat} {piece : String} (h : outcome (place env block rounds) s = (.ok piece, s')) :
    s.engine.Emits s'.engine piece.toList := by
  by_cases hRest : s.rest = []
  · rw [outcome_place_atEnd env block rounds hRest] at h
    cases h
    exact .of_plain Text.plain_nil rfl
  unfold unmarked at hUnmarked
  unfold closable at hClosable
  cases hLookup : s.session.registry.lookup? s.rest with
  | none =>
      obtain ⟨c, text, hText⟩ := List.exists_cons_of_ne_nil hRest
      rw [hText] at hLookup
      rw [outcome_place env block rounds hText, hLookup] at h
      exact emits_literal hs (literal_ne hs.built hLookup) h
  | some found =>
      obtain ⟨length, handler⟩ := found
      rw [hLookup] at hUnmarked hClosable
      rw [outcome_place_dispatch env block rounds hRest hLookup] at h
      obtain ⟨-, expansion, middle, hHandler, rfl, rfl⟩ := dispatch_ok h
      obtain ⟨key, hLongest, rfl⟩ := hs.built.wellFormed.longest_of_lookup? hLookup
      rw [← List.prefix_iff_eq_take.mp hLongest.matched] at hHandler
      have hEntered : InWeb (s.entered key.length) := ⟨hs.built, hs.target, hs.engine⟩
      have hUnread : ∀ text ∈ unread env block (s.entered key.length) handler,
          '<' ∉ text.toList := by
        simpa using hUnmarked
      have hCloses : handler.closes = true → s.engine.MayClose = true := by
        intro hEnds
        simpa [hEnds] using hClosable
      change (s.entered key.length).engine.Emits middle.engine expansion.text.toList
      exact emits_runHandler hRaw hBlock hEntered hLongest.bound hUnread hCloses hHandler

/-- Places where nothing of that kind happens. -/
def orderly (env : Env) (block : BlockReader) (s : ExpandState) : Bool :=
  unmarked env block s && closable s

/-- The induction is on the fuel, and one step of it reads one place. -/
theorem webReader (hRaw : env.evaluator = Evaluator.raw) (fuel : Nat) :
    WebReader (blockIf (orderly env) env fuel) := by
  induction fuel with
  | zero => exact ⟨fun marker? => paged.blockIf 0 marker?, fun _ h => nomatch h⟩
  | succ fuel ih =>
      refine ⟨fun marker? => paged.blockIf _ marker?, fun {marker?} {s} {s'} {text} hs h => ?_⟩
      rcases loop_ok h with ⟨-, -, rfl, rfl⟩ | ⟨marker, -, -, -, rfl, rfl⟩ |
        ⟨-, -, piece, middle, after, hPlace, hAfter, rfl⟩
      · exact .of_plain Text.plain_nil rfl
      · exact .of_plain Text.plain_nil rfl
      · obtain ⟨hOrderly, hRead⟩ := placeIf_ok hPlace
        unfold orderly at hOrderly
        rw [Bool.and_eq_true] at hOrderly
        have hLater := (paged.place env ih.keeps fuel).ok hRead
        have hPiece := emits_place hRaw ih hs hOrderly.1 hOrderly.2 hRead
        have hRest := ih.emits (hs.later hLater) hAfter
        rw [String.toList_append]
        exact hPiece.trans hRest hLater.1.1.enabled

/-- In web output a begin marker comes first, begin and end markers take turns, and an
end marker comes last, when the raw evaluator evaluates all macros, nothing that is put
out as it is written holds the first character of an end marker, and nothing inside of an
argument ends a paragraph that has its begin marker. -/
theorem markers_alternate (hRaw : env.evaluator = Evaluator.raw) {fuel : Nat} {session : Session}
    (hBuilt : session.registry.Built) {file path text out : String} {last : ExpandState}
    (hRun : outcome (documentIf (orderly env) env fuel)
      ⟨session, DocumentState.start file path text .web⟩ = (.ok out, last)) :
    outcome (expandDocument env fuel) ⟨session, DocumentState.start file path text .web⟩ =
        (.ok out, last) ∧
      Text.alternate false (Text.marks out.toList) = true := by
  refine ⟨(documentIf_below (orderly env) env fuel).ok hRun, ?_⟩
  obtain ⟨output, middle, hBlock, rfl, rfl⟩ := wholeDocument_ok hRun
  have hStart : InWeb ⟨session, DocumentState.start file path text .web⟩ :=
    ⟨hBuilt, rfl, AutoBreak.forWeb_ofTarget⟩
  have hReader := webReader hRaw fuel
  have hLater := (hReader.keeps none).ok hBlock
  have hMiddle := (hStart.later hLater).engine
  have hEnabled : middle.engine.enabled = true := hLater.1.1.enabled
  have hClosing := hMiddle.emits_close (by rw [AutoBreak.MayClose, hEnabled, Bool.true_or])
  rw [String.toList_append]
  exact ((hReader.emits hStart hBlock).trans hClosing hEnabled).markup.alternate hMiddle.begun_close

/-- The command line's defaults, with raw macros only. -/
def rawEnv : Env :=
  { plainEnv with evaluator := Evaluator.raw }

def rendering (text : String) : ExpandState :=
  ⟨Session.ofRegistry Registry.builtins, DocumentState.start "<string>" "" text .web⟩

/-- Macros of both policies inside of arguments. One repeats its argument, one drops it. -/
def nested : String :=
  "\\newcommand\x7bb: raw(a) ctx->web\x7d\x7b#a#a\x7d\\newcommand\x7bq: raw(a, b) ctx->web; leaveblk\x7d\x7b(#b)\x7d" ++
    "x\\b\x7by\\b\x7bz\x7d\x7d\n\n\\q\x7b\\q\x7bu\x7d\x7b\x7d\x7d\x7b\\q\x7b\x7d\x7bv\x7d\x7d\n\nw"

theorem nested_rendered :
    (outcome (documentIf (orderly rawEnv) rawEnv 100) (rendering nested)).1 =
      .ok "\n<p>xyzzyzz</p>\n((v))\n<p>w</p>\n" := by
  decide +kernel

theorem markers_alternate_nested : ∃ last,
    outcome (expandDocument rawEnv 100) (rendering nested) =
        (.ok "\n<p>xyzzyzz</p>\n((v))\n<p>w</p>\n", last) ∧
      Text.alternate false (Text.marks "\n<p>xyzzyzz</p>\n((v))\n<p>w</p>\n".toList) = true := by
  obtain ⟨last, hRun⟩ := outcome_ok_of_fst nested_rendered
  exact ⟨last, markers_alternate rfl .builtins hRun⟩

/-- The end marker of a paragraph is part of an argument that is dropped. -/
def dropped : String :=
  "\\newcommand\x7bd: raw(a) ctx->web\x7d\x7b\x7d\\newcommand\x7br: raw() ctx->web; leaveblk\x7d\x7bR\x7d" ++
    "\nx\\d\x7b\\r\x7b\x7d\x7dy"

/-- Nothing is put out as it is written that holds part of a marker, and still the
second paragraph begins before the first one ends. -/
theorem markers_not_alternate :
    (outcome (documentIf (unmarked rawEnv) rawEnv 100) (rendering dropped)).1 =
        .ok "\n<p>x\n<p>y</p>\n" ∧
      (outcome (expandDocument rawEnv 100) (rendering dropped)).1 = .ok "\n<p>x\n<p>y</p>\n" ∧
      Text.alternate false (Text.marks "\n<p>x\n<p>y</p>\n".toList) = false := by
  decide +kernel

end Expand

end MacroMarkup
