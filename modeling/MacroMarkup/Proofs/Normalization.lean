import MacroMarkup.Proofs.Deferral
import MacroMarkup.Proofs.Expand.Abreast.Places
import MacroMarkup.Proofs.Expand.Termination

/-! Whether the normalizing pass comes to an end. It does where all macros are tame. Macros
that are not can keep it going for ever, whichever of the conditions it is that they fail:
names that begin with a character that may be escaped, and a command in the place of the
builtin that opens environments, come back to a text that was there before. An environment that
is kept for a later pass cannot, as what was kept stays: its texts grow from round to round. -/
namespace MacroMarkup

namespace ExpandState

/-- An invocation that only reads leaves the state as it was, but for the engine. -/
theorem exited_calling (s : ExpandState) (length count : Nat) (engine : AutoBreak) :
    (((s.calling length engine).advance count).resume engine.enabled).exited 0 =
      (s.withEngine engine).advance (length + count) := by
  rw [← advance_advance]
  rfl

end ExpandState

namespace Expand

/-- The passes work on a document each, which starts on the outermost level. -/
theorem passes_settles (env : Env) (source : Source) (target : Target) {s : ExpandState}
    (hBuilt : s.session.registry.Built) :
    Settles (fun fuel => passes env fuel source target) s := by
  have hBlock := Settling.blocks env 0
  have hDocument : Settling 0 fun fuel => expandDocument env fuel := Settling.wholeDocument hBlock
  have hPreload : ∀ names : List String,
      Settling 0 fun fuel => names.forM fun name => includeLibrary env (blockReader env fuel) name := by
    intro names
    induction names with
    | nil => exact .reading (·.pure _)
    | cons name names ih =>
        exact (Settling.includeLibrary hBlock name).bind fun _ => ih
  refine ((hPreload env.options.preload).settles s hBuilt (Nat.zero_le _)).bind
    fun _ middle ⟨fuel, hOutcome⟩ => ?_
  have hMiddle := (((hPreload env.options.preload).keeps fuel).ok hOutcome).1 hBuilt
  refine (hDocument.settles middle hMiddle.1 (Nat.zero_le _)).bind
    fun normalized last ⟨fuel', hOutcome'⟩ => ?_
  have hLast := ((hDocument.keeps fuel').ok hOutcome').1 hMiddle.1
  split
  · exact (hDocument.settles (last.withDocument
      (DocumentState.start source.filename source.path normalized target)) hLast.1
        (Nat.zero_le _)).congr fun fuel => outcome_bind_of_ok (outcome_modifyDocument _ last)
  · exact .finite (fuelless.pure _) last

/-- From every text of a family, a round that fires leads to a text of the family again, and
leaves the session as it was. -/
def Recurs (env : Env) (start : ExpandState) (texts : String → Prop) : Prop :=
  ∀ text, texts text → ∃ fuel next last,
    outcome (expandDocument env fuel) (start.withDocument (start.document.generated text)) =
      (.ok next, last) ∧
    last.session = start.session ∧ last.document.executed ≠ 0 ∧ texts next

section Recurring

variable {env : Env} {start : ExpandState} {texts : String → Prop} {text : String}

/-- However many rounds there are to be, they do not suffice. -/
theorem Recurs.outOfFuel (h : Recurs env start texts) (fuel rounds : Nat) {s : ExpandState}
    (hSession : s.session = start.session)
    (hGenerated : s.document.generated = start.document.generated) (hText : texts text) :
    (outcome (toFixpoint (blockReader env fuel) rounds text) s).1 = .error .outOfFuel := by
  induction rounds generalizing s text with
  | zero => rfl
  | succ rounds ih =>
      obtain ⟨enough, next, last, hRound, hKept, hFired, hNext⟩ := h text hText
      have hStart : s.withDocument (s.document.generated text) =
          start.withDocument (start.document.generated text) := by
        unfold ExpandState.withDocument
        rw [hSession, hGenerated]
      have hEither : (outcome (wholeDocument (blockReader env fuel))
            (start.withDocument (start.document.generated text))).1 = .error .outOfFuel ∨
          outcome (wholeDocument (blockReader env fuel))
            (start.withDocument (start.document.generated text)) = (.ok next, last) := by
        rcases Nat.le_total fuel enough with hFuel | hFuel
        · exact (expandDocument_below env hFuel _).imp_right fun hSame => hSame.symm.trans hRound
        · exact .inr ((expandDocument_below env hFuel).ok hRound)
      rw [outcome_toFixpoint_succ, outcome_round, hStart]
      rcases hEither with hOut | hSame
      · generalize outcome (wholeDocument (blockReader env fuel)) _ = result at hOut
        obtain ⟨failure | output, middle⟩ := result
        · cases hOut
          rfl
        · cases hOut
      · rw [hSame]
        dsimp only
        rw [if_neg hFired]
        exact ih (s := (last.withDocument s.document).update fun document =>
          { document with executed := document.executed + last.document.executed })
          hKept hGenerated hNext

/-- Expansion that comes back to a family of texts in every round never ends. -/
theorem Recurs.never_ends (h : Recurs env start texts) (hText : texts text) :
    ¬ Ends (fun fuel => toFixpoint (blockReader env fuel) fuel text) start := by
  rintro ⟨bound, result, hEnded, hSame⟩
  apply hEnded
  rw [← hSame bound (Nat.le_refl _)]
  exact h.outOfFuel bound bound rfl rfl hText

end Recurring

/-- A round over generated text that fires, leaves the session as it was and comes to another
text. -/
def Leads (start : ExpandState) (text next : String) : Prop :=
  let (result, last) :=
    outcome (expandDocument plainEnv 60) (start.withDocument (start.document.generated text))
  result = .ok next ∧ last.session = start.session ∧ last.document.executed ≠ 0

instance (start : ExpandState) (text next : String) : Decidable (Leads start text next) := by
  unfold Leads
  infer_instance

/-- Texts that lead to one another recur. -/
theorem recurs_of_leads {start : ExpandState} (rounds : List (String × String))
    (h : ∀ texts ∈ rounds, Leads start texts.1 texts.2 ∧ texts.2 ∈ rounds.map Prod.fst) :
    Recurs plainEnv start (· ∈ rounds.map Prod.fst) := by
  intro text hText
  obtain ⟨⟨_, next⟩, hMem, rfl⟩ := List.mem_map.mp hText
  obtain ⟨⟨hOutput, hKept, hFired⟩, hNext⟩ := h _ hMem
  exact ⟨60, next, _, Prod.ext hOutput rfl, hKept, hFired, hNext⟩

/-- The registry behind definition statements, each a kind, a signature and a code. One that is
refused changes nothing. -/
def stated (statements : List (MacroKind × String × String)) : Registry :=
  statements.foldl (fun registry (kind, signature, code) =>
    match Declaration.parse kind signature.toList with
    | .ok declaration => (registry.define (declaration.define kind code)).toOption.getD registry
    | .error _ => registry) Registry.builtins

theorem built_stated (statements : List (MacroKind × String × String)) :
    (stated statements).Built := by
  refine List.foldlRecOn statements _ Registry.Built.builtins fun registry hBuilt statement _ => ?_
  obtain ⟨kind, signature, code⟩ := statement
  dsimp only
  cases hParse : Declaration.parse kind signature.toList with
  | error cause => exact hBuilt
  | ok declaration =>
      dsimp only
      cases hDefine : registry.define (declaration.define kind code) with
      | error cause => exact hBuilt
      | ok registry' => exact hBuilt.define hParse hDefine

/-- A state of the normalizing pass in which these statements were made. -/
def stating (statements : List (MacroKind × String × String)) : ExpandState :=
  { session := Session.ofRegistry (stated statements)
    document := DocumentState.start "<string>" "" "" .normalize }

/-- There are macros, all of them tame but for some of this kind, with which the rounds over a
text do not end. -/
def Endless (excepted : UserMacro → Prop) : Prop :=
  ∃ (statements : List (MacroKind × String × String)) (text : String),
    (∀ key user, (stated statements).bound key = some (.user user) → user.Tame ∨ excepted user) ∧
    ¬ Ends (fun fuel => toFixpoint (blockReader plainEnv fuel) fuel text) (stating statements)

/-- Whether a handler is a builtin, a tame macro, or one of the exceptions. -/
def tamesBut (excepted : UserMacro → Prop) [DecidablePred excepted] : Handler → Bool
  | .builtin _ => true
  | .user user => user.Tame ∨ excepted user

/-- Texts that recur under tame definitions are a fixpoint iteration without end. -/
theorem endless_of_recurs {excepted : UserMacro → Prop} [DecidablePred excepted]
    {statements : List (MacroKind × String × String)} {texts : String → Prop} {text : String}
    (hHandlers : (stated statements).handlers.all (tamesBut excepted) = true)
    (hRecurs : Recurs plainEnv (stating statements) texts) (hText : texts text) :
    Endless excepted := by
  refine ⟨statements, text, fun key user hBound => ?_, hRecurs.never_ends hText⟩
  have hTames := Registry.of_all_handlers hHandlers hBound
  simpa [tamesBut] using hTames

/-- Two commands whose names begin with the same character. What one of them becomes completes
the spelling of the other, if the character may be escaped. -/
def rejoining (c : Char) : List (MacroKind × String × String) :=
  [(.command, String.ofList [c, 'a', 'b'] ++ ": raw()", String.ofList ['\\', c, 'a', '\\', c, 'y']),
    (.command, String.ofList [c, 'y', 'c'] ++ ": raw()", "bc")]

def rejoined (c : Char) : List (String × String) :=
  let whole := String.ofList ['\\', c, 'a', 'b', 'c']
  let parts := String.ofList ['\\', c, 'a', '\\', c, 'y', 'c']
  [(whole, parts), (parts, whole)]

/-- Names that begin with a character that may be escaped let the rounds go on. -/
theorem endless_escaped : ∀ c ∈ ['\\', '%', '$'],
    Endless fun user => user.kind = .command ∧ user.name.toList.head? = some c := by
  intro c hEscaped
  have hRounds : ∀ c ∈ ['\\', '%', '$'],
      (stated (rejoining c)).handlers.all (tamesBut fun user =>
        user.kind = .command ∧ user.name.toList.head? = some c) = true ∧
      ∀ texts ∈ rejoined c, Leads (stating (rejoining c)) texts.1 texts.2 ∧
        texts.2 ∈ (rejoined c).map Prod.fst := by
    decide +kernel
  obtain ⟨hHandlers, hLeads⟩ := hRounds c hEscaped
  exact endless_of_recurs hHandlers (recurs_of_leads _ hLeads) (.head _)

/-- A command in the place of the builtin that opens environments, kept for a later pass. It is
written out with an argument that makes it the spelling of an environment, and the scope of that
environment ends inside of the formula that stood in the next argument. -/
def respelling : List (MacroKind × String × String) :=
  [(.command, "begin: raw(name, next) ctx->web; leaveblk", ""),
    (.environment, "box: raw(*title, *body)", ""),
    (.command, "bare: raw()", "$\x7d\n\\end\x7bbox\x7d\\begin\x7b box\x7d\x7b\\bare\x7d%$")]

/-- The command as it is written out in every round. The environment goes, and what stood in the
formula behind its scope writes the command out again. -/
def respelled : String :=
  "\\begin\x7bbox\x7d\x7b$\x7d\n\\end\x7bbox\x7d\\begin\x7b box\x7d\x7b\\bare\x7d%$\x7d"

/-- So does a command in the place of that builtin. -/
theorem endless_begin :
    Endless fun user => user.kind = .command ∧ user.name.toList = "begin".toList := by
  have hRecurs : Recurs plainEnv (stating respelling) (· ∈ [respelled]) :=
    recurs_of_leads [(respelled, respelled)] (by decide +kernel)
  exact endless_of_recurs (by decide +kernel) hRecurs (.head _)

variable {env : Env} {user : UserMacro} {s : ExpandState}

/-- In a row that is not indented, the normalizing pass writes an environment of a later pass as it
is written, if it takes nothing but the text enclosed. -/
theorem outcome_place_kept (hBuilt : s.session.registry.Built)
    (hBound : s.session.registry.bound (Spelling.openEnvironment user.name).toList =
      some (.user user))
    (hKind : user.kind = .environment) (hSingle : user.signature.verbatim.length = 1)
    (hMode : user.signature.mode ≠ .normalize) (hTarget : s.document.target = .normalize)
    (hDepth : s.document.depth + 1 ≤ env.options.maxDepth) (hIndent : s.document.reader.indent = 0)
    {body written : String} {tail : List Char}
    (hRows : ∀ row ∈ Text.rows body.toList,
      ¬ (Spelling.closeEnvironment user.name).toList <+: row)
    (hWritten : written = user.reemit (Spelling.openEnvironment user.name) ⟨[], some body⟩ false)
    (hRest : s.rest = written.toList ++ tail) (block : BlockReader) (rounds : Nat) :
    ∃ count, outcome (place env block rounds) s =
        (.ok ((s.engine.settle user.signature.policy).1 ++ written),
          (s.withEngine (s.engine.settle user.signature.policy).2).advance count) ∧
      (s.advance count).rest = tail := by
  obtain ⟨-, hProper⟩ := hBuilt.sound.user _ user hBound
  have hSpelled : s.rest = (Spelling.openEnvironment user.name).toList ++ '\n' :: (body.toList ++
      '\n' :: (List.replicate s.document.reader.indent ' ' ++
        ((Spelling.closeEnvironment user.name).toList ++ tail))) := by
    rw [hRest, hWritten, toList_reemit_environment hKind, hIndent]
    simp [String.join]
  have hFound : s.session.registry.lookup? s.rest =
      some ((Spelling.openEnvironment user.name).toList.length, .user user) := by
    rw [hSpelled]
    exact hBuilt.lookup?_environment hBound _
  have hSome : s.rest ≠ [] := by
    simp [hSpelled]
  have hTake : String.ofList (s.rest.take (Spelling.openEnvironment user.name).toList.length) =
      Spelling.openEnvironment user.name := by
    rw [hSpelled, List.take_left, String.ofList_toList]
  have hSame : Text.Indented s.document.reader.indent body.toList body.toList := by
    rw [hIndent]
    exact List.forall₂_same.mpr fun row _ => .inl rfl
  obtain ⟨count, hRead, hTail⟩ := (callArgs_written_iff hProper hKind hSingle hSame hSpelled rfl env
    block (s.engine.settle user.signature.policy).2).mpr hRows
  rw [String.ofList_toList] at hRead
  refine ⟨(Spelling.openEnvironment user.name).toList.length + count, ?_, ?_⟩
  · have hLater : ∀ length engine, ¬ user.signature.mode.appliesTo
        ((s.calling length engine).advance count).document.target := by
      intro length engine
      change ¬ user.signature.mode.appliesTo s.document.target
      rw [hTarget, Mode.appliesTo_normalize hMode]
      exact Bool.false_ne_true
    rw [outcome_place_dispatch env block rounds hSome hFound, outcome_dispatch _ _ _ hDepth]
    dsimp only [runHandler]
    have hEngine : (s.entered (Spelling.openEnvironment user.name).toList.length).engine = s.engine :=
      rfl
    rw [hTake, outcome_invoke user _ hRead, if_neg (hLater _ _), hEngine, ← hWritten]
    dsimp only [Expansion.text, Expansion.firings]
    rw [ExpandState.exited_calling]
  · rw [← ExpandState.advance_advance]
    exact hTail

/-- An environment of the web pass that takes nothing but the text enclosed. -/
def crate : UserMacro :=
  { kind := .environment
    name := "crate"
    signature := { verbatim := [true], mode := .webRender, policy := .leaveParagraph }
    bodies := { raw := some { language := .raw, params := ["body"], code := "" } } }

/-- A command that writes a call of that environment with a row enclosed that starts like the end
tag, behind indentation that hides it. -/
def spilling : List (MacroKind × String × String) :=
  [(.environment, "crate: raw(*body) ctx->web; leaveblk", ""),
    (.command, "spill: raw(*text); leaveblk",
      "  \\begin\x7bcrate\x7d\n\\end\x7bcrate\x7d\\spill\x7b\n  \\end\x7bcrate\x7d")]

/-- A call that encloses nothing, which is kept as it is. -/
def emptied : String := "\\begin\x7bcrate\x7d\n\n\\end\x7bcrate\x7d"

/-- As many emptied calls, and one more that its own row ends too early. -/
def spilled : Nat → String
  | 0 => "\\begin\x7bcrate\x7d\n\\end\x7bcrate\x7d\\spill\x7b\n\\end\x7bcrate\x7d"
  | count + 1 => emptied ++ spilled count

/-- A round of generated text with this much of it read. -/
def spillingAt (reader : Reader) : ExpandState :=
  (stating spilling).withDocument { (stating spilling).document.generated "" with reader }

theorem crate_stated : (stated spilling).bound
    (Spelling.openEnvironment crate.name).toList = some (.user crate) := by
  decide +kernel

/-- A call that encloses nothing comes out as it is written. -/
theorem place_emptied {reader : Reader} (hIndent : reader.indent = 0) {tail : List Char}
    (hRest : reader.rest = emptied.toList ++ tail) (block : BlockReader) (rounds : Nat) :
    ∃ next, outcome (place plainEnv block rounds) (spillingAt reader) =
        (.ok emptied, spillingAt next) ∧
      next.rest = tail ∧ next.row = (Spelling.closeEnvironment crate.name).toList := by
  have hWritten : emptied =
      crate.reemit (Spelling.openEnvironment crate.name) ⟨[], some ""⟩ false := by
    decide +kernel
  obtain ⟨count, hPlace, hTail⟩ := outcome_place_kept (s := spillingAt reader) (built_stated _)
    crate_stated rfl rfl (by decide) rfl (show 0 + 1 ≤ plainEnv.options.maxDepth by decide) hIndent
    (by decide +kernel) hWritten hRest block rounds
  have hBehind : (reader.advance count).rest = tail := hTail
  refine ⟨reader.advance count, hPlace, hBehind, ?_⟩
  have hTake : reader.rest.take count = emptied.toList := by
    have hSplit := List.take_append_drop count reader.rest
    rw [← Reader.rest_advance, hBehind, hRest] at hSplit
    rw [hRest]
    exact List.append_cancel_right hSplit
  have hTag : emptied.toList = "\\begin\x7bcrate\x7d\n".toList ++
      '\n' :: (Spelling.closeEnvironment crate.name).toList := by
    decide +kernel
  exact Reader.row_advance_row (hTake.trans hTag) (by decide)

/-- A row that ends a call and begins one that its own row ends too early. -/
def spilledRow : Reader :=
  { before := (Spelling.closeEnvironment crate.name).toList.reverse
    rest := (spilled 0).toList
    cursor := Cursor.start }

/-- How the round goes on from there. -/
def spilledRun : Except Failure String × ExpandState :=
  outcome (blockReader plainEnv 60 none) (spillingAt spilledRow)

/-- A round that fires, and leaves the session as it was and nothing to emit. -/
structure Spilt (last : ExpandState) : Prop where
  session : last.session = (stating spilling).session
  fired : last.document.executed ≠ 0
  closing : last.engine.close.1 = ""

/-- The call is emptied as well, and what was enclosed behind its row spills another. -/
theorem spilledRow_run :
    spilledRun.1 = .ok (spilled 1) ∧ spilledRun.2.session = (stating spilling).session ∧
      spilledRun.2.document.executed ≠ 0 ∧ spilledRun.2.engine.close.1 = "" ∧
      spilledRow.row = (Spelling.closeEnvironment crate.name).toList := by
  decide +kernel

/-- In every row that ends a call the round goes on like that. -/
theorem spilled_once {reader : Reader} (hRest : reader.rest = (spilled 0).toList)
    (hRow : reader.row = (Spelling.closeEnvironment crate.name).toList) :
    ∃ last, outcome (blockReader plainEnv 60 none) (spillingAt reader) = (.ok (spilled 1), last) ∧
      Spilt last := by
  obtain ⟨hOutput, hSession, hFired, hClosing, hRow'⟩ := spilledRow_run
  generalize hRun : spilledRun = result at hOutput hSession hFired hClosing
  obtain ⟨output, last⟩ := result
  dsimp only at hOutput hSession hFired hClosing
  subst hOutput
  have hAligned : spilledRow.Aligned reader := by
    intro text
    rw [hRow, hRow']
  have hAbreast : Abreast .same [] [] (spillingAt spilledRow) (spillingAt reader) :=
    .intro reader (spillingAt spilledRow).engine (spilled 0).toList rfl hAligned
      (List.append_nil _).symm (hRest.trans (List.append_nil _).symm)
  have hSteady := Steady.block plainEnv Gap.none 60 (.inr ⟨rfl, rfl⟩) ""
  obtain hLost | ⟨last', hRun', hLast⟩ :=
    hSteady.follows (built_stated _) hAbreast (spilled 1) last hRun
  · cases hLost
  · obtain ⟨reader', text, rfl, -, -, -⟩ := hLast.same
    exact ⟨_, hRun', hSession, hFired, hClosing⟩

/-- A round goes on behind an emptied call. -/
theorem emptied_then {reader : Reader} (hIndent : reader.indent = 0) {count : Nat}
    (hRest : reader.rest = (spilled (count + 1)).toList) {fuel : Nat}
    (hBehind : ∀ next : Reader, next.rest = (spilled count).toList →
      next.row = (Spelling.closeEnvironment crate.name).toList →
      ∃ last, outcome (blockReader plainEnv fuel none) (spillingAt next) =
        (.ok (spilled (count + 1)), last) ∧ Spilt last) :
    ∃ last, outcome (blockReader plainEnv (fuel + 1) none) (spillingAt reader) =
      (.ok (spilled (count + 2)), last) ∧ Spilt last := by
  rw [spilled, String.toList_append] at hRest
  have hSome : (spillingAt reader).rest ≠ [] := by
    change reader.rest ≠ []
    simp [hRest, emptied]
  obtain ⟨next, hPlace, hNext, hRow⟩ := place_emptied hIndent hRest (blockReader plainEnv fuel) fuel
  obtain ⟨last, hRun, hLast⟩ := hBehind next hNext hRow
  exact ⟨last, outcome_blockReader_then hSome (not_endsAt_none _) hPlace hRun, hLast⟩

/-- However many calls there are, each is emptied and one more is written. -/
theorem spilled_run (count : Nat) {reader : Reader} (hRest : reader.rest = (spilled count).toList)
    (hRow : reader.row = (Spelling.closeEnvironment crate.name).toList) :
    ∃ last, outcome (blockReader plainEnv (60 + count) none) (spillingAt reader) =
      (.ok (spilled (count + 1)), last) ∧ Spilt last := by
  induction count generalizing reader with
  | zero => exact spilled_once hRest hRow
  | succ count ih =>
      refine emptied_then ?_ hRest fun next hNext hRow' => ih hNext hRow'
      change Text.indentOf (reader.row ++ reader.rest) = 0
      rw [hRow]
      rfl

/-- Each round turns a spilled text into one that has been spilled once more. -/
theorem spilling_recurs :
    Recurs plainEnv (stating spilling) fun text => ∃ count, text = spilled (count + 1) := by
  rintro text ⟨count, rfl⟩
  have hIndent : (Reader.ofText (spilled (count + 1))).indent = 0 := by
    change Text.indentOf (emptied ++ spilled count).toList = 0
    rw [String.toList_append]
    rfl
  obtain ⟨last, hRun, hLast⟩ := emptied_then hIndent rfl fun next => spilled_run count
  refine ⟨60 + count + 1, spilled (count + 2), last.withEngine last.engine.close.2, ?_,
    hLast.session, hLast.fired, count + 1, rfl⟩
  change outcome (wholeDocument (blockReader plainEnv (60 + count + 1)))
    (spillingAt (Reader.ofText (spilled (count + 1)))) = _
  rw [outcome_wholeDocument, hRun]
  dsimp only
  rw [hLast.closing, String.append_empty]

/-- So does an environment of a later pass. Those that were kept are one more in every round. -/
theorem endless_deferred :
    Endless fun user => user.kind = .environment ∧ user.signature.mode ≠ .normalize :=
  endless_of_recurs (by decide +kernel) spilling_recurs ⟨0, rfl⟩

/-- The rounds over a generated text come to an end, with a result or an error,
and so do the passes over a document, except where a macro that is not tame has
been defined by the time that the fuel runs out. None of the exceptions can be left
out: for each of the characters that may be escaped, for a command in the place of the
builtin that opens environments, and for environments of a later pass there are macros,
all tame but for some of that kind, with which the rounds over some text never end. The last
of these is a macro that reproduces itself in the plain sense, with its own call in its body. -/
theorem normalization_settles (env : Env) :
    (∀ (text : String) (s : ExpandState), s.session.registry.Built →
      s.document.target = .normalize →
      Settles (fun fuel => toFixpoint (blockReader env fuel) fuel text) s) ∧
    (∀ (source : Source) (target : Target) (s : ExpandState), s.session.registry.Built →
      Settles (fun fuel => passes env fuel source target) s) ∧
    (∀ c ∈ ['\\', '%', '$'],
      Endless fun user => user.kind = .command ∧ user.name.toList.head? = some c) ∧
    (Endless fun user => user.kind = .command ∧ user.name.toList = "begin".toList) ∧
    Endless fun user => user.kind = .environment ∧ user.signature.mode ≠ .normalize := by
  refine ⟨fun text s hBuilt hTarget => ?_, fun source target s hBuilt => ?_, endless_escaped,
    endless_begin, endless_deferred⟩
  · exact Settling.toFixpoint_settles (Settling.blocks env 0) hBuilt (Nat.zero_le _) hTarget text
  · exact passes_settles env source target hBuilt

theorem normalization_settles_greeting :
    Settles (fun fuel => toFixpoint (blockReader plainEnv fuel) fuel "\\hi\x7bworld\x7d")
      (behind "\\newcommand\x7bhi: raw(name)\x7d\x7bHello, #name!\x7d\n") :=
  (normalization_settles plainEnv).1 _ _ (built_behind _) rfl

/-- Two macros whose spellings go on from an escaped backslash. What one of them
becomes completes the spelling of the other. -/
def circling : ExpandState :=
  behind ("\\newcommand\x7b\\ab: raw()\x7d\x7b\\\\a\\\\y\x7d\n" ++
    "\\newcommand\x7b\\yc: raw()\x7d\x7bbc\x7d\n")

/-- The texts alternate. -/
theorem circling_recurs : Recurs plainEnv circling (· ∈ ["\\\\abc", "\\\\a\\\\yc"]) :=
  recurs_of_leads [("\\\\abc", "\\\\a\\\\yc"), ("\\\\a\\\\yc", "\\\\abc")] (by decide +kernel)

theorem circling_never_ends :
    ¬ Ends (fun fuel => toFixpoint (blockReader plainEnv fuel) fuel "\\\\abc") circling :=
  circling_recurs.never_ends (.head _)

end Expand

end MacroMarkup
