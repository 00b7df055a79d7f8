import MacroMarkup.Proofs.Enclosure
import MacroMarkup.Proofs.Expand.Run

/-! Whether an environment that is kept for a later pass is read there as it was read
before. Its end tag is written at the start of a row, and the text enclosed without the
indentation of the call, so it depends on the row that the call is written in, and on
the rows enclosed. -/
namespace MacroMarkup

namespace Expand

variable {env : Env} {fuel : Nat} {block : BlockReader} {user : UserMacro} {s s' m : ExpandState}

/-! The text that an environment encloses. -/

/-- Reading resumes behind the end tag that was written only if the call is in a row that
is not indented, and no row enclosed starts like the end tag. -/
theorem environmentBody_resumes {name : String} {indent : Nat} {body tail : List Char}
    (hName : '\n' ∉ (Spelling.closeEnvironment name).toList)
    (hRest : m.rest = '\n' :: (body ++ '\n' :: ((Spelling.closeEnvironment name).toList ++ tail)))
    {value : String} {last : ExpandState}
    (h : outcome (environmentBody name indent) m = (.ok value, last)) (hTail : last.rest = tail) :
    indent = 0 ∧ ¬ '\n' :: (Spelling.closeEnvironment name).toList <:+: '\n' :: body := by
  rw [outcome_environmentBody name indent hRest] at h
  generalize hFound : Text.before? _ m.rest = found at h
  cases found with
  | none => cases h
  | some captured =>
      cases h
      generalize hClosing : (Spelling.closeEnvironment name).toList = closing at *
      have hText : captured ++ '\n' :: (List.replicate indent ' ' ++ closing) =
          '\n' :: body ++ '\n' :: closing := by
        obtain ⟨after, hAfter⟩ := (Text.before?_eq_some_iff.mp hFound).1
        have hBehind : m.rest = captured ++
            (blockEnd indent (Spelling.closeEnvironment name)).toList ++ after := by
          rw [toList_blockEnd, hClosing, hAfter]
        rw [ExpandState.rest_behind hBehind] at hTail
        rw [hTail, hRest] at hAfter
        have hAll : captured ++ '\n' :: (List.replicate indent ' ' ++ closing) ++ tail =
            '\n' :: body ++ '\n' :: closing ++ tail := by
          rw [hAfter]
          simp
        exact List.append_cancel_right hAll
      have hBehind : captured ++ '\n' :: List.replicate indent ' ' = '\n' :: body ++ ['\n'] := by
        have hAll : captured ++ '\n' :: List.replicate indent ' ' ++ closing =
            '\n' :: body ++ ['\n'] ++ closing := by
          simpa using hText
        exact List.append_cancel_right hAll
      cases indent with
      | succ indent =>
          rw [List.replicate_succ', ← List.cons_append, ← List.append_assoc] at hBehind
          have hLast := (List.append_inj' hBehind rfl).2
          cases hLast
      | zero =>
          obtain rfl : captured = '\n' :: body := List.append_cancel_right hBehind
          refine ⟨rfl, (Text.before?_row hName tail).mp ?_⟩
          rw [hRest] at hFound
          exact hFound

/-- There the text that was written is read again, and reading resumes behind it. -/
theorem environmentBody_again {name : String} {body tail : List Char}
    (hName : '\n' ∉ (Spelling.closeEnvironment name).toList)
    (hRest : m.rest = '\n' :: (body ++ '\n' :: ((Spelling.closeEnvironment name).toList ++ tail)))
    (hRows : ¬ '\n' :: (Spelling.closeEnvironment name).toList <:+: '\n' :: body) :
    ∃ last, outcome (environmentBody name 0) m = (.ok (String.ofList body), last) ∧
      last.rest = tail := by
  have hSame : Text.Indented 0 body body := List.forall₂_same.mpr fun row _ => .inl rfl
  have hStarts : ∀ row ∈ Text.rows body, ¬ (Spelling.closeEnvironment name).toList <+: row := by
    rw [Text.row_infix_iff hName] at hRows
    exact fun row hMem hStart => hRows ⟨row, hMem, hStart⟩
  obtain ⟨count, hRead, hTail⟩ := (environmentBody_written_iff hName hSame hRest).mpr hStarts
  exact ⟨_, hRead, hTail⟩

/-! Its scopes. -/

/-- The values that scopes can have been read with: a verbatim one holds no brace that
closes. -/
def ScopeValues (flags : List Bool) (values : List String) : Prop :=
  List.Forall₂ (fun verbatim value => verbatim = true → '\x7d' ∉ value.toList) flags values

/-- The values that scopes are read with are values of such scopes. -/
theorem scopeValues_of_arguments {flags : List Bool} {values : List String}
    (h : outcome (flags.mapM (argument env block)) s = (.ok values, s')) :
    ScopeValues flags values := by
  induction flags generalizing s values with
  | nil =>
      cases h
      exact .nil
  | cons flag flags ih =>
      rw [List.mapM_cons] at h
      obtain ⟨value, middle, hValue, hLater⟩ := outcome_bind_ok h
      obtain ⟨others, last, hOthers, hPure⟩ := outcome_bind_ok hLater
      cases hPure
      refine .cons (fun hVerbatim => ?_) (ih hOthers)
      rw [hVerbatim] at hValue
      obtain ⟨-, -, hContent, -⟩ := verbatimScope_ok hValue
      exact hContent

/-- Scopes that were written with some values are read by a later pass: a verbatim one
with its value, any other with whatever its contents are expanded to there, as long as
it ends at the brace that was written behind it. -/
inductive ScopesAgain (env : Env) (block : BlockReader) :
    List Bool → List String → ExpandState → List String → ExpandState → Prop where
  | nil (m : ExpandState) : ScopesAgain env block [] [] m [] m
  | verbatim {flags : List Bool} {value : String} {values values' : List String}
      {m m' : ExpandState} :
      ScopesAgain env block flags values (m.advance (value.toList.length + 2)) values' m' →
      ScopesAgain env block (true :: flags) (value :: values) m (value :: values') m'
  | parsed {flags : List Bool} {value value' : String} {values values' : List String}
      {m middle m' : ExpandState} :
      outcome (parsedScope env block) m = (.ok value', middle) →
      m.rest = '\x7b' :: (value.toList ++ '\x7d' :: middle.rest) →
      ScopesAgain env block flags values middle values' m' →
      ScopesAgain env block (false :: flags) (value :: values) m (value' :: values') m'

/-- Verbatim scopes are read again as they are, whatever the state is. -/
theorem ScopesAgain.ofVerbatim (env : Env) (block : BlockReader) {flags : List Bool}
    (hFlags : ∀ flag ∈ flags, flag = true) {values : List String}
    (hLength : flags.length = values.length) (m : ExpandState) :
    ∃ m', ScopesAgain env block flags values m values m' := by
  induction flags generalizing values m with
  | nil =>
      obtain rfl : values = [] := List.eq_nil_of_length_eq_zero hLength.symm
      exact ⟨m, .nil m⟩
  | cons flag flags ih =>
      obtain ⟨value, values, rfl⟩ := List.exists_cons_of_length_eq_add_one hLength.symm
      obtain rfl := hFlags flag List.mem_cons_self
      obtain ⟨m', hMore⟩ := ih (fun flag hFlag => hFlags flag (List.mem_cons_of_mem _ hFlag))
        (Nat.succ.inj hLength) (m.advance (value.toList.length + 2))
      exact ⟨m', .verbatim hMore⟩

/-- The scopes of an invocation that was written again are read with the values that they had,
and nothing behind them is touched. -/
theorem ScopesAgain.outcome_arguments {flags : List Bool} {values values' : List String}
    {m' : ExpandState} (h : ScopesAgain env block flags values m values' m')
    (hValues : ScopeValues flags values) {after : List Char}
    (hRest : m.rest = (String.join (values.map Spelling.braced)).toList ++ after) :
    outcome (flags.mapM (argument env block)) m = (.ok values', m') ∧ m'.rest = after := by
  induction h with
  | nil m => exact ⟨rfl, hRest⟩
  | @verbatim flags value values values' m m' _ ih =>
      cases hValues with
      | cons hValue hValues =>
          rw [List.map_cons, String.join_cons, String.toList_append, toList_braced,
            List.append_assoc, List.cons_append, List.append_assoc] at hRest
          have hRead := outcome_verbatimScope hRest (hValue rfl)
          have hBehind : (m.advance (value.toList.length + 2)).rest =
              (String.join (values.map Spelling.braced)).toList ++ after := by
            rw [m.rest_advance, hRest]
            simp
          obtain ⟨hMore, hAfter⟩ := ih hValues hBehind
          rw [String.ofList_toList] at hRead
          rw [List.mapM_cons, outcome_bind_of_ok (show outcome (argument env block true) m = _ from hRead),
            outcome_bind_of_ok hMore]
          exact ⟨rfl, hAfter⟩
  | @parsed flags value value' values values' m middle m' hRead hScope _ ih =>
      cases hValues with
      | cons hValue hValues =>
          rw [List.map_cons, String.join_cons, String.toList_append, toList_braced,
            List.append_assoc, List.cons_append, List.append_assoc] at hRest
          have hBehind : middle.rest = (String.join (values.map Spelling.braced)).toList ++ after := by
            rw [hScope] at hRest
            have hInner := List.append_cancel_left (List.cons.inj hRest).2
            exact (List.cons.inj hInner).2
          obtain ⟨hMore, hAfter⟩ := ih hValues hBehind
          rw [List.mapM_cons, outcome_bind_of_ok (show outcome (argument env block false) m = _ from hRead),
            outcome_bind_of_ok hMore]
          exact ⟨rfl, hAfter⟩

/-! The whole invocation. -/

theorem toList_reemit_environment (hKind : user.kind = .environment) (invocation : String)
    (scopes : List String) (body : String) :
    (user.reemit invocation ⟨scopes, some body⟩ false).toList =
      invocation.toList ++ ((String.join (scopes.map Spelling.braced)).toList ++
        '\n' :: (body.toList ++ '\n' :: (Spelling.closeEnvironment user.name).toList)) := by
  have hFull : (false || (user.kind = .command && scopes.isEmpty)) = false := by
    simp [hKind]
  unfold UserMacro.reemit
  dsimp only
  rw [hFull, if_neg (by decide), String.append_empty, String.toList_append, String.toList_append,
    String.toList_append, String.toList_append, String.toList_append, List.append_assoc,
    List.append_assoc, List.append_assoc]
  rfl

/-- A pass that leaves an environment to a later one reads its arguments, and writes it
out with them. -/
theorem dispatch_deferred (hKind : user.kind = .environment)
    (hFlags : user.signature.verbatim ≠ []) (hMode : user.signature.mode ≠ .normalize)
    (hTarget : s.document.target = .normalize) {rounds length : Nat} {text : String}
    (h : outcome (dispatch env (blockReader env fuel) rounds (.user user) length) s =
      (.ok text, s')) :
    ∃ scopes body middle,
      outcome (callArgs env (blockReader env fuel) user (s.entered length).document.reader.indent)
        (s.calling length (s.engine.settle user.signature.policy).2) =
          (.ok (⟨scopes, some body⟩, false), middle) ∧
      text = (s.engine.settle user.signature.policy).1 ++
        user.reemit (String.ofList (s.rest.take length)) ⟨scopes, some body⟩ false := by
  obtain ⟨-, expansion, last, hRun, rfl, -⟩ := dispatch_ok h
  have hInvoke : outcome (invoke env (blockReader env fuel) rounds user
      (String.ofList (s.rest.take length))) (s.entered length) = (.ok expansion, last) := hRun
  obtain ⟨args, middle, hArgs⟩ := invoke_ok hInvoke
  have hMiddle : middle.document.target = .normalize := by
    rw [← hTarget]
    exact ((onward.callArgs env (onward.block env fuel · "") user _).ok hArgs).target
  have hPasses : ¬ user.signature.mode.appliesTo middle.document.target := by
    rw [hMiddle]
    cases hIs : user.signature.mode with
    | normalize => exact absurd hIs hMode
    | docRender => decide
    | webRender => decide
  rw [outcome_invoke user _ hArgs, if_neg hPasses] at hInvoke
  cases hInvoke
  obtain ⟨scopes, body, -, rfl, -, -⟩ := callArgs_environment_ok hKind hFlags hArgs
  exact ⟨scopes, body, middle, hArgs, rfl⟩

/-- The text that an environment encloses has no row that starts like its end tag. -/
def Unclosed (name : String) (body : List Char) : Prop :=
  ¬ '\n' :: (Spelling.closeEnvironment name).toList <:+: '\n' :: body

/-- The normalizing pass reads an environment of a later pass with some arguments and
writes it out. A later pass finds it where it is written. If its scopes end there at their
own braces, then the verbatim ones have the values that they had; and it is read with the
same text enclosed, up to the end tag that was written, exactly if it is written in a row
that is not indented and no row enclosed starts like the end tag. -/
theorem environment_read_again_iff (hBuilt : s.session.registry.Built) {length : Nat}
    (hFound : s.session.registry.lookup? s.rest = some (length, .user user))
    (hKind : user.kind = .environment) (hMode : user.signature.mode ≠ .normalize)
    (hTarget : s.document.target = .normalize) {rounds : Nat} {text : String}
    (h : outcome (dispatch env (blockReader env fuel) rounds (.user user) length) s =
      (.ok text, s')) :
    ∃ scopes body middle written,
      outcome (callArgs env (blockReader env fuel) user (s.entered length).document.reader.indent)
        (s.calling length (s.engine.settle user.signature.policy).2) =
          (.ok (⟨scopes, some body⟩, false), middle) ∧
      written = user.reemit (Spelling.openEnvironment user.name) ⟨scopes, some body⟩ false ∧
      text = (s.engine.settle user.signature.policy).1 ++ written ∧
      ∀ {m : ExpandState} {tail : List Char}, m.session.registry.Built →
        s'.session.registry.Extends m.session.registry → m.rest = written.toList ++ tail →
        ∃ bodies, m.session.registry.lookup? m.rest = some (length, .user { user with bodies }) ∧
          ∀ {block : BlockReader} {engine : AutoBreak} {scopes' : List String} {behind : ExpandState},
            ScopesAgain env block user.signature.verbatim.dropLast scopes (m.calling length engine)
              scopes' behind →
            ((∃ last, outcome (callArgs env block { user with bodies }
                (m.entered length).document.reader.indent) (m.calling length engine) =
                  (.ok (⟨scopes', some body⟩, false), last) ∧ last.rest = tail) ↔
              m.document.reader.indent = 0 ∧ Unclosed user.name body.toList) := by
  obtain ⟨key, hLongest, rfl⟩ := hBuilt.wellFormed.longest_of_lookup? hFound
  obtain ⟨hKey, hProper⟩ := hBuilt.sound.user key user hLongest.bound
  rw [hKind, MacroKind.invocation] at hKey
  have hFlags : user.signature.verbatim ≠ [] := by
    intro hNil
    have hLast := hProper.encloses hKind
    rw [hNil] at hLast
    cases hLast
  obtain ⟨scopes, body, middle, hArgs, rfl⟩ := dispatch_deferred hKind hFlags hMode hTarget h
  have hTake : String.ofList (s.rest.take key.length) = Spelling.openEnvironment user.name := by
    rw [(List.prefix_iff_eq_take.mp hLongest.matched).symm, hKey, String.ofList_toList]
  rw [hTake]
  refine ⟨scopes, body, middle, _, hArgs, rfl, rfl, ?_⟩
  intro m tail hLaterBuilt hExtends hRest
  rw [toList_reemit_environment hKind] at hRest
  have hGrown := (grown.dispatch env (grown.block env fuel · "") rounds (.user user) key.length).ok h
  obtain ⟨bodies, hBound⟩ := ((hGrown hBuilt).2.trans hExtends) key user hLongest.bound
  rw [hKey] at hBound
  refine ⟨bodies, ?_, ?_⟩
  · rw [hRest, hKey, List.append_assoc]
    exact @Registry.Built.lookup?_environment _ hLaterBuilt { user with bodies } hBound _
  · intro block engine scopes' behind hScopes
    obtain ⟨_, _, _, hSame, hRead, -⟩ := callArgs_environment_ok hKind hFlags hArgs
    cases hSame
    have hCalling : (m.calling key.length engine).rest =
        (String.join (scopes.map Spelling.braced)).toList ++
          '\n' :: (body.toList ++ '\n' :: ((Spelling.closeEnvironment user.name).toList ++ tail)) := by
      change (m.advance key.length).rest = _
      rw [m.rest_advance, hRest, hKey, List.append_assoc, List.drop_left]
      simp
    obtain ⟨hAgain, hBehind⟩ :=
      hScopes.outcome_arguments (scopeValues_of_arguments hRead) hCalling
    have hRow : key <+: m.rest := by
      rw [hRest, hKey, List.append_assoc]
      exact List.prefix_append _ _
    have hIndent := ExpandState.indent_entered hRow (hKey ▸ hProper.break_not_mem_open)
    have hName := hProper.break_not_mem_close
    rw [outcome_callArgs_environment { user with bodies } hKind hFlags hAgain, hIndent]
    constructor
    · rintro ⟨last, hOutcome, hTail⟩
      generalize hBody : outcome (environmentBody user.name _) behind = result at hOutcome
      obtain ⟨_ | value, last'⟩ := result
      · cases hOutcome
      · cases hOutcome
        exact environmentBody_resumes hName hBehind hBody hTail
    · rintro ⟨hStart, hRows⟩
      obtain ⟨last, hBody, hTail⟩ := environmentBody_again hName hBehind hRows
      rw [hStart, hBody, String.ofList_toList]
      exact ⟨last, rfl, hTail⟩

def box : UserMacro :=
  { kind := .environment
    name := "box"
    signature := { verbatim := [true, true], mode := .webRender, policy := .wrapInParagraph }
    bodies := { raw := some { language := .raw, params := ["title", "b"], code := "<#title:#b>" } } }

def boxed (text : String) (target : Target) : ExpandState :=
  (behind "\\newenvironment\x7bbox: raw(*title, *b) ctx->web\x7d\x7b<#title:#b>\x7d\n").withDocument
    (DocumentState.start "<string>" "" text target)

theorem built_boxed (text : String) (target : Target) :
    (boxed text target).session.registry.Built := by
  have hSession (s : ExpandState) (document : DocumentState) :
      (s.withDocument document).session = s.session := rfl
  rw [boxed, hSession]
  exact built_behind _

/-- A call that is indented, with rows enclosed that are indented further. -/
def indentedBox : ExpandState :=
  (boxed "  \\begin\x7bbox\x7d\x7bT\x7d\n    a\n  \\end\x7bbox\x7d" .normalize).advance 2

def writtenBox : ExpandState :=
  boxed "\\begin\x7bbox\x7d\x7bT\x7d\n  a\n\\end\x7bbox\x7d\n\n" .web

theorem built_indentedBox : indentedBox.session.registry.Built := by
  have hSession (s : ExpandState) (count : Nat) : (s.advance count).session = s.session := rfl
  rw [indentedBox, hSession]
  exact built_boxed _ _

theorem built_writtenBox : writtenBox.session.registry.Built := by
  rw [writtenBox]
  exact built_boxed _ _

/-- The environment in the indented row is found, and its end tag is read with the
indentation. -/
theorem indentedBox_run :
    indentedBox.document.target = .normalize ∧
    indentedBox.session.registry.lookup? indentedBox.rest = some (11, .user box) ∧
    (outcome (callArgs plainEnv (blockReader plainEnv 9) box
      (indentedBox.entered 11).document.reader.indent)
      (indentedBox.calling 11 (indentedBox.engine.settle .wrapInParagraph).2)).1 =
        .ok (⟨["T"], some "  a"⟩, false) ∧
    (outcome (dispatch plainEnv (blockReader plainEnv 9) 9 (.user box) 11) indentedBox).1 =
      .ok "\\begin\x7bbox\x7d\x7bT\x7d\n  a\n\\end\x7bbox\x7d" ∧
    (outcome (dispatch plainEnv (blockReader plainEnv 9) 9 (.user box) 11) indentedBox).2.session =
      writtenBox.session ∧
    writtenBox.document.reader.indent = 0 ∧ Unclosed "box" "  a".toList := by
  unfold Unclosed
  decide +kernel

/-- In a row that is not indented it is read again. -/
theorem environment_read_again_box : ∃ user last,
    writtenBox.session.registry.lookup? writtenBox.rest = some (11, .user user) ∧
    outcome (callArgs plainEnv (blockReader plainEnv 9) user
      (writtenBox.entered 11).document.reader.indent)
      (writtenBox.calling 11 (writtenBox.engine.settle .wrapInParagraph).2) =
        (.ok (⟨["T"], some "  a"⟩, false), last) ∧
    last.rest = "\n\n".toList := by
  obtain ⟨hTarget, hFound, hArgs, hText, hSession, hIndent, hRows⟩ := indentedBox_run
  obtain ⟨s', hRun⟩ := outcome_ok_of_fst hText
  rw [hRun] at hSession
  obtain ⟨scopes, body, middle, written, hRead, hWritten, -, hAgain⟩ := environment_read_again_iff
    built_indentedBox hFound rfl (by decide) hTarget hRun
  rw [show box.signature.policy = .wrapInParagraph from rfl] at hRead
  rw [hRead] at hArgs
  cases hArgs
  have hRest : writtenBox.rest = written.toList ++ "\n\n".toList := by
    rw [hWritten]
    decide +kernel
  have hExtends : s'.session.registry.Extends writtenBox.session.registry := by
    rw [show s'.session = writtenBox.session from hSession]
    exact .refl _
  obtain ⟨bodies, hLater, hScopes⟩ := hAgain built_writtenBox hExtends hRest
  have hFlags : ∀ flag ∈ box.signature.verbatim.dropLast, flag = true := by decide
  have hLength : box.signature.verbatim.dropLast.length = ["T"].length := rfl
  obtain ⟨behind, hVerbatim⟩ := ScopesAgain.ofVerbatim plainEnv (blockReader plainEnv 9) hFlags
    hLength (writtenBox.calling 11 (writtenBox.engine.settle .wrapInParagraph).2)
  obtain ⟨last, hOutcome, hTail⟩ := (hScopes hVerbatim).mpr ⟨hIndent, hRows⟩
  exact ⟨_, last, hLater, hOutcome, hTail⟩

/-- A call behind a formula whose second row is indented. -/
def rowOfFormula : String :=
  "$x\n  $\\begin\x7bbox\x7d\x7bT\x7d\na\n  \\end\x7bbox\x7d"

/-- What the normalizing pass writes for it. The end tag starts its row. -/
def rowOfFormulaWritten : String :=
  "$x\n  $\\begin\x7bbox\x7d\x7bT\x7d\na\n\\end\x7bbox\x7d\n\n"

/-- The state behind the formula that a document starts with. -/
def behindFormula (text : String) (target : Target) : ExpandState :=
  (outcome (place plainEnv (blockReader plainEnv 20) 20) (boxed text target)).2

/-- How the arguments of a call at this state are read. -/
def boxArguments (s : ExpandState) : Except Failure (CallArgs × Bool) :=
  (outcome (callArgs plainEnv (blockReader plainEnv 19) box
    (s.entered 11).document.reader.indent)
    (s.calling 11 (s.engine.settle .wrapInParagraph).2)).1

/-- A later pass reads the call in its indented row, and does not look for the end tag
where it was written. -/
theorem environment_lost :
    (outcome (expandDocument plainEnv 20) (boxed rowOfFormula .normalize)).1 =
      .ok rowOfFormulaWritten ∧
    (behindFormula rowOfFormula .normalize).session.registry.lookup?
      (behindFormula rowOfFormula .normalize).rest = some (11, .user box) ∧
    boxArguments (behindFormula rowOfFormula .normalize) = .ok (⟨["T"], some "a"⟩, false) ∧
    (behindFormula rowOfFormulaWritten .web).session.registry.lookup?
      (behindFormula rowOfFormulaWritten .web).rest = some (11, .user box) ∧
    (behindFormula rowOfFormulaWritten .web).rest =
      "\\begin\x7bbox\x7d\x7bT\x7d\na\n\\end\x7bbox\x7d\n\n".toList ∧
    boxArguments (behindFormula rowOfFormulaWritten .web) =
      .error (.error ⟨"<string>", "", 5, 0, .expectedEndMarker "\\end\x7bbox\x7d"⟩) := by
  decide +kernel

end Expand

end MacroMarkup
