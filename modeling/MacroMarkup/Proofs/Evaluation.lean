import MacroMarkup.Proofs.Compilation
import MacroMarkup.Proofs.Registry.Bodies

/-! What an evaluator is asked in a compilation. It is called with as many values as the body
and the signature of the macro have parameters, so that no answer to any other call has an
influence, and an arity error of a raw body does not occur. -/
namespace MacroMarkup

def Env.withEvaluator (env : Env) (evaluator : Evaluator) : Env :=
  { env with evaluator }

/-- The call has more or fewer values than parameters. -/
def EvalError.isArity : EvalError → Bool
  | tooManyArguments .. => true
  | missingArguments .. => true
  | unsupportedLanguage _ => false
  | runtime _ => false

namespace Evaluator

/-- A call with as many values as parameters passes the check. -/
theorem checkArity_ok {name : String} {body : MacroBody} {values : List String}
    (h : values.length = body.params.length) : checkArity name body values = .ok () := by
  unfold checkArity
  dsimp only
  rw [if_neg (by omega), if_neg (by omega)]

/-- Evaluation of raw bodies raises no arity error of its own. -/
theorem raw_isArity {name : String} {body : MacroBody} {values : List String} {error : EvalError}
    (hLength : values.length = body.params.length)
    (h : raw.evaluate name body values = .error error) : error.isArity = false := by
  unfold raw at h
  dsimp only at h
  split at h
  · rw [checkArity_ok hLength] at h
    cases h
  · cases h
    rfl

/-- Nor does the standard evaluator. It passes on what a plugged-in engine says. -/
theorem standard_isArity {script : Option Evaluator} {name : String} {body : MacroBody}
    {values : List String} {error : EvalError} (hLength : values.length = body.params.length)
    (h : (standard script).evaluate name body values = .error error)
    (hArity : error.isArity = true) :
    ∃ engine, script = some engine ∧ body.language = .script ∧
      engine.evaluate name body values = .error error := by
  unfold standard at h
  dsimp only at h
  split at h
  · have hRaw := raw_isArity hLength h
    rw [hRaw] at hArity
    cases hArity
  · rename_i engine hLanguage
    exact ⟨engine, rfl, hLanguage, h⟩
  · cases h
    cases hArity

end Evaluator

namespace Expand

/-- Nothing is said of calls that the final registry does not lead to. -/
def calling (evaluator : Evaluator) (final : Registry) : Comparison where
  start := Session.ofRegistry Registry.builtins
  later σ σ' := σ.registry.Built → σ'.registry.Built ∧ σ.registry.Holds σ'.registry
  raised cause := ∀ error, cause = .evaluation error →
    ∃ name body values, evaluator.evaluate name body values = .error error
  excepted _ := False
  beyond σ := σ.registry.Built ∧ ¬ σ.registry.Holds final
  refl σ hBuilt := ⟨hBuilt, .refl _⟩
  trans h h' hBuilt := by
    obtain ⟨hMiddle, hFirst⟩ := h hBuilt
    obtain ⟨hLast, hSecond⟩ := h' hMiddle
    exact ⟨hLast, hFirst.trans hSecond⟩
  defining hParse hDefine hBuilt := ⟨hBuilt.define hParse hDefine, hBuilt.define_holds hDefine⟩
  loading _ hBuilt := ⟨hBuilt, .refl _⟩
  native hNative error hError := absurd hError (hNative.1 error)
  relocated _ _ h := h
  lasting h hLater := by
    obtain ⟨hLast, hHolds⟩ := hLater h.1
    exact ⟨hLast, fun hFinal => h.2 (hHolds.trans hFinal)⟩

/-- Evaluators that agree on all calls may be exchanged. -/
theorem exchange_withEvaluator {env : Env} {final : Registry} {evaluator : Evaluator}
    (hSupports : evaluator.supports = env.evaluator.supports)
    (hCalls : ∀ name body values, final.Calls name body values →
      evaluator.evaluate name body values = env.evaluator.evaluate name body values) :
    (calling env.evaluator final).Exchange env (env.withEvaluator evaluator) where
  descending s _ := by
    refine ⟨?_, ?_, .inr rfl⟩ <;> rw [outcome_descend]
    · split <;> exact (calling env.evaluator final).refl s.session
    · intro error hError
      split at hError
      · cases hError
        exact fun _ hCause => nomatch hCause
      · cases hError
  resolving _ _ := rfl
  reading _ _ _ := .inr rfl
  supports := hSupports
  evaluating := by
    rintro σ user body values ⟨earlier, text, length, hStart, hLater, hFound⟩ hBody hLength
    refine ⟨fun error hError _ hCause => ?_, ?_⟩
    · cases hCause
      exact ⟨_, _, _, hError⟩
    · obtain ⟨hBuilt, -⟩ := hStart .builtins
      obtain ⟨hLast, hHolds⟩ := hLater hBuilt
      by_cases hFinal : σ.registry.Holds final
      · exact .inr (hCalls _ _ _ (hBuilt.calls (hHolds.trans hFinal) hFound hBody hLength))
      · exact .inl ⟨hLast, hFinal⟩
  preload := rfl

end Expand

namespace Compiler

open Expand

/-- Evaluators that agree on the calls that the final registry leads to are as good as each
other. -/
theorem withEvaluator_same {fuel : Nat} {env : Env} {source : Source} {target : Target}
    {evaluator : Evaluator} (hSupports : evaluator.supports = env.evaluator.supports)
    (hCalls : ∀ name body values, (finalSession fuel env source target).registry.Calls name body values →
      evaluator.evaluate name body values = env.evaluator.evaluate name body values) :
    compileWith fuel (env.withEvaluator evaluator) source target =
      compileWith fuel env source target := by
  exact compileWith_same (exchange_withEvaluator hSupports hCalls) (.refl fuel) rfl
    (fun _ _ hExcepted => hExcepted) fun hBeyond => hBeyond.2 (.refl _)

/-- An error of evaluation is one that the evaluator gave. -/
theorem evaluation_error {fuel : Nat} {env : Env} {source : Source} {target : Target}
    {error : LocatedError} {cause : EvalError}
    (h : compileWith fuel env source target = .error (.error error))
    (hCause : error.cause = .evaluation cause) :
    ∃ name body values, env.evaluator.evaluate name body values = .error cause := by
  have hEnv : (calling env.evaluator Registry.builtins).Exchange env env :=
    exchange_withEvaluator rfl fun _ _ _ _ => rfl
  exact compileWith_raised hEnv rfl h cause hCause

open Classical in
/-- It gave it for a call that the final registry leads to. -/
theorem evaluation_error_called {fuel : Nat} {env : Env} {source : Source} {target : Target}
    {error : LocatedError} {cause : EvalError}
    (h : compileWith fuel env source target = .error (.error error))
    (hCause : error.cause = .evaluation cause) :
    ∃ name body values, (finalSession fuel env source target).registry.Calls name body values ∧
      env.evaluator.evaluate name body values = .error cause := by
  -- An evaluator that answers every other call at once makes no difference.
  let answering : Evaluator := {
    supports := env.evaluator.supports
    evaluate := fun name body values =>
      if (finalSession fuel env source target).registry.Calls name body values then
        env.evaluator.evaluate name body values
      else .ok "" }
  have hSame : compileWith fuel (env.withEvaluator answering) source target =
      compileWith fuel env source target :=
    withEvaluator_same rfl fun name body values hCalls => if_pos hCalls
  obtain ⟨name, body, values, hError⟩ := evaluation_error (hSame.trans h) hCause
  change (if (finalSession fuel env source target).registry.Calls name body values then
    env.evaluator.evaluate name body values else .ok "") = _ at hError
  split at hError
  · exact ⟨name, body, values, by assumption, hError⟩
  · cases hError

/-- Every call of the evaluator has as many values as the body and the frozen signature of
the macro have parameters: its answers to other calls have no influence on the compilation,
and an error of evaluation is its answer to a call of this kind. So raw evaluation raises no
arity error, and standard evaluation only where an engine for scripts gives one itself. -/
theorem evaluator_calls (fuel : Nat) (env : Env) (source : Source) (target : Target) :
    (∀ evaluator : Evaluator, evaluator.supports = env.evaluator.supports →
      (∀ name body values, (finalSession fuel env source target).registry.Calls name body values →
        evaluator.evaluate name body values = env.evaluator.evaluate name body values) →
      compileWith fuel (env.withEvaluator evaluator) source target =
        compileWith fuel env source target) ∧
    (∀ error cause, compileWith fuel env source target = .error (.error error) →
      error.cause = .evaluation cause →
      ∃ name body values, (finalSession fuel env source target).registry.Calls name body values ∧
        env.evaluator.evaluate name body values = .error cause) ∧
    (∀ error cause, compileWith fuel (env.withEvaluator .raw) source target = .error (.error error) →
      error.cause = .evaluation cause → cause.isArity = false) ∧
    ∀ script error cause,
      compileWith fuel (env.withEvaluator (.standard script)) source target =
        .error (.error error) →
      error.cause = .evaluation cause → cause.isArity = true →
      ∃ engine name body values, script = some engine ∧ body.language = .script ∧
        values.length = body.params.length ∧ engine.evaluate name body values = .error cause := by
  refine ⟨fun evaluator hSupports hCalls => withEvaluator_same hSupports hCalls,
    fun error cause h hCause => evaluation_error_called h hCause,
    fun error cause h hCause => ?_, fun script error cause h hCause hArity => ?_⟩
  · obtain ⟨name, body, values, hCalls, hError⟩ := evaluation_error_called h hCause
    exact Evaluator.raw_isArity hCalls.arity hError
  · obtain ⟨name, body, values, hCalls, hError⟩ := evaluation_error_called h hCause
    obtain ⟨engine, hScript, hLanguage, hEngine⟩ :=
      Evaluator.standard_isArity hCalls.arity hError hArity
    exact ⟨engine, name, body, values, hScript, hLanguage, hCalls.arity, hEngine⟩

/-- A macro with a script and a raw body, of which the script comes first. -/
def pairing : Source :=
  Source.ofText ("\\newcommand\x7bpair: script(a, *b)\x7d\x7ba + b\x7d\n" ++
    "\\newcommand\x7bpair: raw(first, *second)\x7d\x7b#first-#second\x7d\n\\pair\x7bx\x7d\x7by\x7d")

/-- Raw evaluation without a check of how many values there are. -/
def unchecked : Evaluator where
  supports := (Evaluator.standard none).supports
  evaluate name body values :=
    if values.length = body.params.length then (Evaluator.standard none).evaluate name body values
    else .ok "unreachable"

/-- The check is never needed. -/
theorem evaluator_calls_pairing :
    compileWith 200 (plainEnv.withEvaluator unchecked) pairing .normalize =
      compileWith 200 plainEnv pairing .normalize ∧
    document? (compileWith 200 plainEnv pairing .normalize) = some "x-y\n\n" :=
  ⟨(evaluator_calls 200 plainEnv pairing .normalize).1 unchecked rfl
    fun _ _ _ hCalls => if_pos hCalls.arity, by decide +kernel⟩

end Compiler

end MacroMarkup
