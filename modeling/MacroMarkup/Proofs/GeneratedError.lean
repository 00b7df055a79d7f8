import MacroMarkup.Proofs.ErrorPosition
import MacroMarkup.Proofs.Expand.Raised

/-! Where the errors of generated text are reported. Each round takes them to the place where
its text was generated, so that from rounds within rounds only the outermost place is left. -/
namespace MacroMarkup.Expand

variable {env : Env} {call inner outer : Call} {raised : LocatedError}

/-- The rounds of a call fail as the fixpoint does. -/
theorem Call.fails_rounds {count fuel : Nat} {text : String} {s : ExpandState} {failure : Failure} :
    Call.Fails env ⟨.rounds count text, fuel, s⟩ failure ↔
      FailsFrom (toFixpoint (blockReader env fuel) count text) s failure :=
  failsFrom_return

/-- A call that does not begin the text of a library. -/
def MakesWithin (env : Env) (call inner : Call) : Prop :=
  Makes env call inner ∧ ∀ source, inner.routine ≠ .library source

/-- A call that does not begin a generated text. -/
def MakesWritten (env : Env) (call inner : Call) : Prop :=
  Makes env call inner ∧ ∀ text, call.routine ≠ .round text

/-- Outside of libraries an error keeps its cause, and has the names of every document around
it. The induction is on the calls from the inside out. -/
theorem Call.Raises.names (hRaises : inner.Raises env (.error raised))
    (h : Relation.ReflTransGen (MakesWithin env) call inner)
    (hText : ∀ source, call.routine ≠ .library source) :
    ∃ error, call.Fails env (.error error) ∧ error.cause = raised.cause ∧
      error.file = call.state.document.file ∧ error.path = call.state.document.path := by
  induction h using Relation.ReflTransGen.head_induction_on with
  | refl =>
      have hOnward := (onward.run env inner.fuel inner.routine).always
        (show inner.ending env = (_, (inner.ending env).2) from rfl)
      have hPlace := hRaises.place hText
      refine ⟨raised, hRaises.1, rfl, ?_, ?_⟩ <;> rw [hPlace]
      · exact hOnward.file
      · exact hOnward.path
  | @head call middle hMakes _ ih =>
      obtain ⟨error, hFails, hCause, hFile, hPath⟩ := ih hMakes.2
      obtain ⟨hSameFile, hSamePath⟩ := hMakes.1.names hText
      have hPassed := hMakes.1.fails hFails
      unfold Call.passOn at hPassed
      split at hPassed
      · rw [relocate_same _ (hFile.trans hSameFile) (hPath.trans hSamePath)] at hPassed
        exact ⟨_, hPassed, hCause, rfl, rfl⟩
      · exact ⟨error, hPassed, hCause, hFile.trans hSameFile, hPath.trans hSamePath⟩

/-- An error inside a round is reported where its text was generated. -/
theorem Call.Raises.round {text : String} {fuel : Nat} {s : ExpandState}
    (hRaises : inner.Raises env (.error raised))
    (h : Relation.ReflTransGen (MakesWithin env) ⟨.round text, fuel, s⟩ inner) :
    Call.Fails env ⟨.round text, fuel, s⟩ (.error (s.document.error raised.cause)) := by
  rcases h.cases_head with rfl | ⟨middle, ⟨hMakes, hText⟩, hLater⟩
  · exact absurd (failsFrom_return.mp hRaises.1) (Call.Sound.round hRaises.2 _)
  · obtain ⟨error, hFails, hCause, hFile, hPath⟩ := hRaises.names hLater hText
    cases hMakes with
    | generated =>
        rw [← hCause, ← relocate_same s.document hFile hPath]
        exact Makes.generated.fails hFails

/-- They raise nothing themselves. -/
theorem Call.not_raises_rounds {count fuel : Nat} {text : String} {s : ExpandState} :
    ¬ Call.Raises env ⟨.rounds count text, fuel, s⟩ (.error raised) := by
  intro hRaises
  cases Call.Sound.rounds hRaises.2 (Call.fails_rounds.mp hRaises.1)

/-- So is one inside of later rounds, since a round does not move the document at hand. -/
theorem Call.Raises.rounds {count fuel : Nat} {text : String} {s : ExpandState}
    (hRaises : inner.Raises env (.error raised))
    (h : Relation.ReflTransGen (MakesWithin env) ⟨.rounds count text, fuel, s⟩ inner) :
    Call.Fails env ⟨.rounds count text, fuel, s⟩ (.error (s.document.error raised.cause)) := by
  induction count generalizing text s with
  | zero =>
      rcases h.cases_head with rfl | ⟨middle, ⟨hMakes, -⟩, -⟩
      · exact absurd hRaises Call.not_raises_rounds
      · cases hMakes
  | succ count ih =>
      rcases h.cases_head with rfl | ⟨middle, ⟨hMakes, -⟩, hLater⟩
      · exact absurd hRaises Call.not_raises_rounds
      · cases hMakes with
        | firstRound => exact Makes.firstRound.fails (hRaises.round hLater)
        | furtherRounds hRound hFired =>
            obtain ⟨output, last, -, -, rfl⟩ := round_ok hRound
            exact (Makes.furtherRounds hRound hFired).fails (ih hLater)

/-- A failure is handed on unchanged to the calls around it, up to a generated text. -/
theorem Call.Fails.handedOn {failure : Failure} (hFails : call.Fails env failure)
    (h : Relation.ReflTransGen (MakesWritten env) outer call) : outer.Fails env failure := by
  induction h using Relation.ReflTransGen.head_induction_on with
  | refl => exact hFails
  | @head outer middle hMakes _ ih =>
      have hPassed := hMakes.1.fails ih
      unfold Call.passOn at hPassed
      split at hPassed
      · rename_i text hRound
        exact absurd hRound (hMakes.2 text)
      · exact hPassed

/-- An invocation has read its arguments and expands the text that the evaluator gives. An
error in that text, in any round and under any number of invocations and scopes, but not in a
library, has every call around the invocation fail with the same cause at the place behind
the arguments, unless the invocation is in generated text itself. No error is left out: each
with which the expansion fails is raised inside, with its cause. -/
theorem generated_error_at_invocation {user : UserMacro} {invocation text : String} {fuel : Nat}
    {body : MacroBody} {args : CallArgs × Bool} {s behind : ExpandState}
    (hArgs : outcome (suspended (callArgs env (blockReader env fuel) user s.document.reader.indent))
      (s.withEngine (s.engine.settle user.signature.policy).2) = (.ok args, behind))
    (hMode : user.signature.mode.appliesTo behind.document.target = true)
    (hTarget : behind.document.target = .normalize)
    (hBody : user.preferredBody? env.evaluator = some body)
    (hText : env.evaluator.evaluate user.name body args.1.values = .ok text) :
    (behind.document.file = s.document.file ∧ behind.document.path = s.document.path) ∧
    (∀ inner raised,
      Relation.ReflTransGen (MakesWithin env) ⟨.rounds fuel text, fuel, behind⟩ inner →
      inner.Raises env (.error raised) →
      ∀ outer, Relation.ReflTransGen (MakesWritten env) outer
          ⟨.handler (.user user) invocation, fuel, s⟩ →
        outer.Fails env (.error (behind.document.error raised.cause))) ∧
    ∀ error, Call.Fails env ⟨.rounds fuel text, fuel, behind⟩ (.error error) →
      ∃ inner raised, Reaches env ⟨.rounds fuel text, fuel, behind⟩ inner ∧
        inner.Raises env (.error raised) ∧ raised.cause = error.cause := by
  have hMakes : Makes env ⟨.handler (.user user) invocation, fuel, s⟩
      ⟨.rounds fuel text, fuel, behind⟩ := .evaluation hArgs hMode hTarget hBody hText
  refine ⟨hMakes.names nofun, fun inner raised hWithin hRaises outer hOuter => ?_, ?_⟩
  · exact (hMakes.fails (hRaises.rounds hWithin)).handedOn hOuter
  · exact fun error hFails => hFails.exists_raised

/-- Without files no library is begun. -/
theorem makesWithin_plain (h : Makes plainEnv call inner) : MakesWithin plainEnv call inner := by
  refine ⟨h, fun source hSource => ?_⟩
  cases h with
  | library hFound _ hText =>
      exact Compiler.not_findable_plain _ ⟨_, _, _, _, _, hFound, hText, rfl⟩
  | _ => cases hSource

/-- A macro that becomes its argument and an invocation of another one. -/
def wrapper : UserMacro :=
  { kind := .command
    name := "go"
    signature := { verbatim := [false], mode := .normalize, policy := .wrapInParagraph }
    bodies := { raw := some { language := .raw, params := ["a"], code := "[#a]\\deep" } } }

/-- A document that begins with a call of it. The other one becomes what nothing defines. -/
def wrapping : ExpandState :=
  (behind ("\\newcommand\x7bgo: raw(a)\x7d\x7b[#a]\\deep\x7d\n" ++
      "\\newcommand\x7bdeep: raw()\x7d\x7b- \\nope\x7d\n")).withDocument
    (DocumentState.start "<string>" "" "\\go\x7bw\x7d x" .normalize)

def wrapped : Except Failure (CallArgs × Bool) × ExpandState :=
  outcome (suspended (callArgs plainEnv (blockReader plainEnv 59) wrapper
      (wrapping.entered 3).document.reader.indent))
    ((wrapping.entered 3).withEngine
      ((wrapping.entered 3).engine.settle wrapper.signature.policy).2)

theorem wrapped_run :
    wrapping.rest ≠ [] ∧
    wrapping.session.registry.lookup? wrapping.rest = some (3, .user wrapper) ∧
    wrapped.1 = .ok (⟨["w"], none⟩, false) ∧
    wrapped.2.document.target = .normalize ∧
    wrapped.2.document.error .unknownFunction = ⟨"<string>", "", 0, 6, .unknownFunction⟩ ∧
    plainEnv.evaluator.evaluate "go" ⟨.raw, ["a"], "[#a]\\deep"⟩ ["w"] = .ok "[w]\\deep" ∧
    (outcome (toFixpoint (blockReader plainEnv 59) 59 "[w]\\deep") wrapped.2).1 =
      .error (.error ⟨"<string>", "", 0, 6, .unknownFunction⟩) := by
  decide +kernel

/-- The error of the inner text is reported behind the argument of the outer invocation. -/
theorem generated_error_at_invocation_nested : ∃ inner raised,
    Reaches plainEnv ⟨.rounds 59 "[w]\\deep", 59, wrapped.2⟩ inner ∧
    inner.Raises plainEnv (.error raised) ∧ raised.cause = .unknownFunction ∧
    Call.Fails plainEnv ⟨.document, 60, wrapping⟩
      (.error ⟨"<string>", "", 0, 6, .unknownFunction⟩) := by
  obtain ⟨hRest, hFound, hArgs, hTarget, hPlace, hText, hFails⟩ := wrapped_run
  have hMode : wrapper.signature.mode.appliesTo wrapped.2.document.target = true := by
    rw [hTarget]
    rfl
  have hRun : wrapped = (.ok (⟨["w"], none⟩, false), wrapped.2) := by
    rw [← hArgs]
  obtain ⟨-, hReported, hRaised⟩ :=
    @generated_error_at_invocation plainEnv wrapper _ _ 59 _ _ (wrapping.entered 3) wrapped.2 hRun
      hMode hTarget rfl hText
  obtain ⟨inner, raised, hReaches, hRaises, hCause⟩ := hRaised _ (Call.fails_rounds.mpr hFails)
  have hWithin := Relation.ReflTransGen.mono (fun _ _ => makesWithin_plain) _ _ hReaches
  have hBlock : Makes plainEnv ⟨.block none, 60, wrapping⟩ ⟨.handler (.user wrapper)
      (String.ofList (wrapping.rest.take 3)), 59, wrapping.entered 3⟩ :=
    .dispatch hRest (not_endsAt_none _) hFound (outcome_descend_within (by decide) 3)
  have hOuter : Relation.ReflTransGen (MakesWritten plainEnv) ⟨.document, 60, wrapping⟩ _ :=
    .head ⟨.document, nofun⟩ (.single ⟨hBlock, nofun⟩)
  have hDocument := hReported inner raised hWithin hRaises _ hOuter
  rw [hCause] at hDocument
  exact ⟨inner, raised, hReaches, hRaises, hCause, hPlace ▸ hDocument⟩

end MacroMarkup.Expand
