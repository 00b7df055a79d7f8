import MacroMarkup.Proofs.Alternation
import MacroMarkup.Proofs.Balance
import MacroMarkup.Proofs.Fixpoint.Engine

/-! What an invocation that ends the paragraph leaves behind. The paragraph is closed before
the arguments are read, by the same engine, so that it is closed behind the invocation as
well if and only if the arguments leave no paragraph open. -/
namespace MacroMarkup

namespace AutoBreak

variable {engine engine' : AutoBreak}

/-- No paragraph is open, and nothing is pending. -/
structure Closed (engine : AutoBreak) : Prop where
  opened : engine.opened = false
  pendingSpace : engine.pendingSpace = false
  pendingBreaks : engine.pendingBreaks = 0

/-- Every operation is one of the calls, and none switches markers on. -/
theorem Move.operation (hMove : Move engine engine') :
    ∃ operation : Operation, operation ≠ .restore true ∧ engine' = (operation.apply engine).2 := by
  cases hMove with
  | process c => exact ⟨.process c, Operation.noConfusion, rfl⟩
  | ensureOpen reopen => exact ⟨.ensureOpen reopen, Operation.noConfusion, rfl⟩
  | close => exact ⟨.close, Operation.noConfusion, rfl⟩
  | flush => exact ⟨.flush, Operation.noConfusion, rfl⟩

/-- A suspended engine that owes nothing goes on to owe nothing. -/
theorem Muted.move (h : engine.Muted) (hMove : Move engine engine') : engine'.Muted := by
  obtain ⟨operation, hOff, rfl⟩ := hMove.operation
  have hTidy : engine.Tidy :=
    ⟨fun hBegun => absurd (h.begun.symm.trans hBegun) (by decide), h.closed⟩
  obtain ⟨-, hEnabled, hBegun⟩ := Operation.markers_off hOff h.enabled h.begun
  exact ⟨hEnabled, hBegun, hMove.counted h.counted, (operation.tidy_apply hTidy).settled⟩

/-- Behind a closed paragraph a tidy engine has nothing left to write. -/
theorem Tidy.closed_close (h : engine.Tidy) : engine.close.2.Closed := by
  unfold AutoBreak.close
  split
  · exact ⟨rfl, rfl, rfl⟩
  · rename_i hOpened
    have hClosed : engine.opened = false := Bool.not_eq_true _ ▸ hOpened
    exact ⟨hClosed, (h.settled hClosed).1, (h.settled hClosed).2⟩

/-- Leaving the paragraph settles what is pending, and no end marker is owed any longer. -/
theorem Tidy.settle_leave (h : engine.Tidy) :
    (engine.settle .leaveParagraph).2.Closed ∧
      (engine.settle .leaveParagraph).2.suspend.2.Muted := by
  have hFlushed : engine.flush.2.Tidy := Operation.flush.tidy_apply h
  have hClosed : (engine.settle .leaveParagraph).2.Closed := hFlushed.closed_close
  exact ⟨hClosed, rfl, begun_close _ hFlushed.owing,
    fun hBreaks => absurd hClosed.pendingBreaks hBreaks,
    fun _ => ⟨hClosed.pendingSpace, hClosed.pendingBreaks⟩⟩

/-- Settling changes neither the markers nor whether the engine is enabled. -/
theorem kept_settle (policy : BreakPolicy) (engine : AutoBreak) :
    (engine.settle policy).2.enabled = engine.enabled ∧
      (engine.settle policy).2.beginMarker = engine.beginMarker := by
  have hFlush := (Move.flush engine).kept
  cases policy with
  | wrapInParagraph =>
      have hOpen := (Move.ensureOpen false engine.flush.2).kept
      exact ⟨hOpen.1.trans hFlush.1, hOpen.2.1.trans hFlush.2.1⟩
  | leaveParagraph =>
      have hClose := (Move.close engine.flush.2).kept
      exact ⟨hClose.1.trans hFlush.1, hClose.2.1.trans hFlush.2.1⟩

/-- What comes before the next visible character when markers are on again: the begin marker,
if no paragraph is open or a blank row is pending, else at most a space. -/
theorem Muted.process_restored (h : engine.Muted) {c : Char} (hVisible : c ≠ ' ' ∧ c ≠ '\n') :
    ((engine.restore true).process c).1 =
      (if engine.opened = false ∨ 2 ≤ engine.pendingBreaks then engine.beginMarker
        else if engine.pendingSpace then " " else "") ++ String.singleton c := by
  cases engine with
  | mk opened pendingSpace pendingBreaks enabled begun beginMarker endMarker =>
      obtain ⟨rfl, rfl, ⟨rfl, rfl, rfl⟩ | ⟨rfl, rfl, rfl⟩ | ⟨rfl, rfl⟩⟩ := h.shapes
      · simp [AutoBreak.process, processVisible, restore, hVisible]
      · simp [AutoBreak.process, processVisible, restore, hVisible]
      · by_cases hBreaks : 2 ≤ pendingBreaks
        · have hNot : ¬ pendingBreaks < 2 := Nat.not_lt.mpr hBreaks
          have hSome : 0 < pendingBreaks := Nat.lt_of_lt_of_le Nat.two_pos hBreaks
          simp [AutoBreak.process, processVisible, restore, hVisible, hBreaks, hNot, hSome]
        · have hFew : pendingBreaks < 2 := Nat.lt_of_not_le hBreaks
          simp [AutoBreak.process, processVisible, restore, hVisible, hBreaks, hFew]

end AutoBreak

namespace Expand

variable {env : Env} {block : BlockReader} {user : UserMacro} {s s' : ExpandState}

/-- Where the engine is suspended and owes nothing, it goes on to do so. -/
def Muting (s s' : ExpandState) : Prop :=
  s.engine.Muted → s'.engine.Muted

/-- A suspended engine with an empty begin marker stays one. -/
theorem muting : Law Muting fun _ _ => True where
  refl _ h := h
  trans h h' hMuted := h' (h hMuted)
  failing _ _ _ _ := trivial
  exhausted _ := trivial
  refused _ _ _ := trivial
  following _ _ _ _ _ _ := trivial
  reading _ _ h := h
  moving _ _ hMove h := h.move hMove
  suspending s _ h hMuted := by
    have hInner := h ⟨rfl, hMuted.begun, hMuted.counted, hMuted.closed⟩
    exact ⟨hMuted.enabled, hInner.begun, hInner.counted, hInner.closed⟩
  suspendingFailed _ _ _ _ := trivial
  scoping _ _ h := h
  scopingFailed _ _ _ _ := trivial
  counting _ _ h := h
  defining _ _ _ _ _ _ _ _ h := h
  loading _ _ h := h
  nesting _ _ _ _ _ h := h
  includingFailed _ _ _ _ _ _ _ := trivial
  generatingFailed _ _ _ _ _ := trivial

/-! Only what stands in the document itself moves its engine. -/

/-- Generated text has engines of its own. -/
theorem unmoved_toFixpoint (block : BlockReader) (rounds : Nat) (text : String) :
    Keeps (fun s s' => s'.engine = s.engine) (fun _ _ => True) (toFixpoint block rounds text) := by
  induction rounds generalizing text with
  | zero => exact fun _ => trivial
  | succ rounds ih =>
      refine unmoving.bind (fun s => ?_) fun result => ?_
      · rw [outcome_round]
        generalize outcome (wholeDocument block) _ = result
        obtain ⟨_ | _, last⟩ := result
        · trivial
        · rfl
      · dsimp only
        split
        · exact unmoving.pure _
        · exact ih _

/-- An evaluation reads texts of its own, so that the engine stays as it is. -/
theorem unmoved_evaluate (env : Env) (block : BlockReader) (rounds : Nat) (user : UserMacro)
    (values : List String) :
    Keeps (fun s s' => s'.engine = s.engine) (fun _ _ => True)
      (evaluate env block rounds user values) := by
  unfold evaluate
  split
  · exact unmoving.fail _
  · refine unmoving.bind (unmoving.located _) fun result =>
      unmoving.bind unmoving.document fun current => ?_
    split
    · exact unmoved_toFixpoint block rounds _
    · exact unmoving.pure _

/-- Verbatim arguments are not expanded. -/
theorem unmoved_callArgs (env : Env) (block : BlockReader)
    (hVerbatim : ∀ flag ∈ user.signature.verbatim, flag = true) (indent : Nat) :
    Keeps (fun s s' => s'.engine = s.engine) (fun _ _ => True)
      (callArgs env block user indent) := by
  have hScopes : ∀ flags : List Bool, (∀ flag ∈ flags, flag = true) →
      flags.mapM (argument env block) = flags.mapM fun _ => verbatimScope := by
    intro flags hFlags
    induction flags with
    | nil => rfl
    | cons flag flags ih =>
        rw [List.forall_mem_cons] at hFlags
        rw [List.mapM_cons, List.mapM_cons, ih hFlags.2, hFlags.1]
        rfl
  unfold callArgs
  split
  · exact unmoving.bind unmoving.emptyScope fun _ => unmoving.pure _
  · refine unmoving.bind ?_ fun _ => unmoving.pure _
    unfold arguments
    split
    · rw [hScopes _ hVerbatim]
      exact unmoving.bind (unmoving.mapM (fun _ => unmoving.verbatimScope) _) fun _ =>
        unmoving.pure _
    · rw [hScopes _ fun flag hMem => hVerbatim flag (List.dropLast_subset _ hMem)]
      exact unmoving.bind (unmoving.mapM (fun _ => unmoving.verbatimScope) _) fun _ =>
        unmoving.bind (unmoving.environmentBody _ _) fun _ => unmoving.pure _

/-- An invocation leaves the engine as its arguments do, with markers as they were. -/
theorem engine_behind_invoke {rounds : Nat} {invocation : String} {expansion : Expansion}
    (h : outcome (invoke env block rounds user invocation) s = (.ok expansion, s')) :
    ∃ args middle, outcome (callArgs env block user s.document.reader.indent)
        (s.withEngine (s.engine.settle user.signature.policy).2).suspend = (.ok args, middle) ∧
      s'.engine = middle.engine.restore (s.engine.settle user.signature.policy).2.enabled := by
  obtain ⟨args, middle, hArgs⟩ := invoke_ok h
  refine ⟨args, middle, hArgs, ?_⟩
  rw [outcome_invoke user invocation hArgs] at h
  split at h
  · split at h
    · rename_i text last hEvaluate
      cases h
      exact (unmoved_evaluate env block rounds user _).ok hEvaluate
    · cases h
  · cases h
    rfl

/-- Where an invocation ends the paragraph, the paragraph is closed before the arguments are
read, and it is closed behind the invocation if and only if they leave no paragraph open. So
it is when all parameters are verbatim. Only then, or where the arguments leave a blank row
pending, does the next visible character begin a paragraph with its marker. -/
theorem leaves_paragraph_iff (hTidy : s.engine.Tidy) (hEnabled : s.engine.enabled = true)
    (hPolicy : user.signature.policy = .leaveParagraph) {fuel rounds : Nat} {invocation : String}
    {expansion : Expansion}
    (h : outcome (invoke env (blockReader env fuel) rounds user invocation) s =
      (.ok expansion, s')) :
    (s.engine.settle .leaveParagraph).2.Closed ∧
    ∃ args middle,
      outcome (callArgs env (blockReader env fuel) user s.document.reader.indent)
        (s.withEngine (s.engine.settle .leaveParagraph).2).suspend = (.ok args, middle) ∧
      s'.engine = middle.engine.restore true ∧
      (s'.engine.Closed ↔ middle.engine.opened = false) ∧
      ((∀ flag ∈ user.signature.verbatim, flag = true) → s'.engine.Closed) ∧
      ∀ c, c ≠ ' ' ∧ c ≠ '\n' → (s'.engine.process c).1 =
        (if s'.engine.opened = false ∨ 2 ≤ s'.engine.pendingBreaks then s.engine.beginMarker
          else if s'.engine.pendingSpace then " " else "") ++ String.singleton c := by
  obtain ⟨hLeft, hMuted⟩ := hTidy.settle_leave
  obtain ⟨args, middle, hArgs, hEngine⟩ := engine_behind_invoke h
  rw [hPolicy] at hArgs hEngine
  have hOnward := (onward.callArgs env (onward.block env fuel · "") user _).ok hArgs
  have hMiddle : middle.engine.Muted :=
    (muting.callArgs env (muting.block env fuel · "") user _).ok hArgs hMuted
  have hKept := AutoBreak.kept_settle .leaveParagraph s.engine
  have hRestored : s'.engine = middle.engine.restore true := by
    rw [hEngine, hKept.1, hEnabled]
  have hClosed : s'.engine.Closed ↔ middle.engine.opened = false := by
    rw [hRestored]
    exact ⟨fun hBehind => hBehind.opened, fun hOpened =>
      ⟨hOpened, (hMiddle.closed hOpened).1, (hMiddle.closed hOpened).2⟩⟩
  refine ⟨hLeft, args, middle, hArgs, hRestored, hClosed, fun hVerbatim => ?_, fun c hVisible => ?_⟩
  · have hUnmoved := (unmoved_callArgs env _ hVerbatim _).ok hArgs
    rw [hClosed, hUnmoved]
    exact hLeft.opened
  · have hMarker : middle.engine.beginMarker = s.engine.beginMarker :=
      hOnward.beginMarker.trans hKept.2
    rw [hRestored, hMiddle.process_restored hVisible, hMarker]
    rfl

def quote : UserMacro :=
  { kind := .command, name := "q", signature := ⟨[false], .webRender, .leaveParagraph⟩,
    bodies := { raw := some { language := .raw, params := ["a"], code := "<q>#a</q>" } } }

/-- Web output behind the spelling of a quotation, with a paragraph open and a space pending. -/
def quoting (arguments : String) : ExpandState :=
  (rendering arguments).withEngine ((AutoBreak.ofTarget .web).processAll "a ".toList).2

theorem tidy_quoting (arguments : String) : (quoting arguments).engine.Tidy := by
  have hOpened : ((AutoBreak.ofTarget .web).processAll "a ".toList).2.opened = true := by
    decide +kernel
  exact ⟨fun _ => hOpened, fun hClosed => absurd (hOpened.symm.trans hClosed) (by decide)⟩

/-- The quotation of nothing visible. -/
theorem leaves_paragraph_iff_blank :
    ∃ expansion s', outcome (invoke rawEnv (blockReader rawEnv 20) 20 quote "\\q")
        (quoting "\x7b \x7dy") = (.ok expansion, s') ∧
      (quoting "\x7b \x7dy").engine.Tidy ∧ s'.engine.Closed ∧
      (s'.engine.process 'y').1 = "\n<p>y" := by
  have hFired : (outcome (invoke rawEnv (blockReader rawEnv 20) 20 quote "\\q")
      (quoting "\x7b \x7dy")).1 = .ok (.fired " </p>\n<q></q>") := by
    decide +kernel
  have hOpened : (outcome (invoke rawEnv (blockReader rawEnv 20) 20 quote "\\q")
      (quoting "\x7b \x7dy")).2.engine.opened = false := by
    decide +kernel
  obtain ⟨s', hRun⟩ := outcome_ok_of_fst hFired
  rw [hRun] at hOpened
  obtain ⟨-, args, middle, hArgs, hEngine, hClosed, -, hNext⟩ :=
    leaves_paragraph_iff (tidy_quoting _) rfl rfl hRun
  have hMiddle : middle.engine.opened = false := by
    rw [hEngine] at hOpened
    exact hOpened
  refine ⟨_, s', hRun, tidy_quoting _, hClosed.mpr hMiddle, ?_⟩
  rw [hNext 'y' (by decide), if_pos (.inl hOpened)]
  rfl

/-- The quotation of a word leaves a paragraph open that has no marker, so that the next
word does not begin one. -/
theorem paragraph_not_left :
    (quoting "\x7bx\x7dy").engine.Tidy ∧ (quoting "\x7bx\x7dy").engine.enabled = true ∧
      quote.signature.policy = .leaveParagraph ∧
    (outcome (invoke rawEnv (blockReader rawEnv 20) 20 quote "\\q") (quoting "\x7bx\x7dy")).1 =
      .ok (.fired " </p>\n<q>x</q>") ∧
    (outcome (invoke rawEnv (blockReader rawEnv 20) 20 quote "\\q")
      (quoting "\x7bx\x7dy")).2.engine.opened = true ∧
    ((outcome (invoke rawEnv (blockReader rawEnv 20) 20 quote "\\q")
      (quoting "\x7bx\x7dy")).2.engine.process 'y').1 = "y" ∧
    (outcome (expandDocument rawEnv 100) (rendering ("\\newcommand\x7bq: raw(a) ctx->web; " ++
      "leaveblk\x7d\x7b<q>#a</q>\x7d\n\\q\x7bx\x7dy"))).1 = .ok "<q>x</q>y" :=
  ⟨tidy_quoting _, rfl, rfl, by decide +kernel⟩

end Expand

end MacroMarkup
