import MacroMarkup.Proofs.ErrorPosition
import MacroMarkup.Proofs.Expand.Fuel

/-! Two compilations of one source, compared from the builtins on. -/
namespace MacroMarkup

namespace Compiler

open Expand

variable {x : Comparison} {env env' : Env} {fuel fuel' : Nat}

/-- What is known at the end of a compilation, whether it succeeds or fails. -/
def finalSession (fuel : Nat) (env : Env) (source : Source) (target : Target) : Session :=
  match FrontMatter.extract source with
  | .error _ => Session.ofRegistry Registry.builtins
  | .ok (_, text) => (outcome (passes env fuel source target) (opening source text)).2.session

/-- Two compilations come out the same, unless the first ends in an exception. -/
theorem compileWith_same (hEnv : x.Exchange env env') (hFuel : x.Fuel fuel fuel')
    (hStart : x.start = Session.ofRegistry Registry.builtins) {source : Source} {target : Target}
    (hFailure : ∀ failure, compileWith fuel env source target = .error failure →
      ¬ x.excepted failure)
    (hBeyond : ¬ x.beyond (finalSession fuel env source target)) :
    compileWith fuel' env' source target = compileWith fuel env source target := by
  rw [compileWith_eq] at hFailure ⊢
  rw [compileWith_eq]
  unfold finalSession at hBeyond
  generalize FrontMatter.extract source = extracted at hFailure hBeyond ⊢
  cases extracted with
  | error refused => rfl
  | ok parts =>
      obtain ⟨headers, text⟩ := parts
      have hAdmits : x.Admits (opening source text) := by
        unfold Comparison.Admits
        rw [hStart]
        exact x.refl _
      have hRuns := Agrees.passes hEnv hFuel source target (opening source text) hAdmits
      dsimp only at hFailure hBeyond ⊢
      have hNone : ¬ x.Excepts (outcome (passes env fuel source target) (opening source text)) := by
        rintro (⟨failure, hFailed, hExcepted⟩ | hLast)
        · rw [hFailed] at hFailure
          exact hFailure failure rfl hExcepted
        · exact hBeyond hLast
      rw [hRuns.same.resolve_left hNone]

/-- What is followed of the session holds of the last one. -/
theorem finalSession_later (hEnv : x.Exchange env env)
    (hStart : x.start = Session.ofRegistry Registry.builtins) (source : Source) (target : Target) :
    x.later x.start (finalSession fuel env source target) := by
  unfold finalSession
  cases FrontMatter.extract source with
  | error refused => exact hStart ▸ x.refl _
  | ok parts =>
      have hAdmits : x.Admits (opening source parts.2) := by
        unfold Comparison.Admits
        rw [hStart]
        exact x.refl _
      exact x.trans hAdmits (Agrees.passes hEnv (.refl fuel) source target _ hAdmits).later

/-- The error of a compilation that fails has a cause that is followed. -/
theorem compileWith_raised (hEnv : x.Exchange env env)
    (hStart : x.start = Session.ofRegistry Registry.builtins) {source : Source} {target : Target}
    {error : LocatedError} (h : compileWith fuel env source target = .error (.error error)) :
    x.raised error.cause := by
  rw [compileWith_eq] at h
  generalize hExtract : FrontMatter.extract source = extracted at h
  cases extracted with
  | error refused =>
      cases h
      exact x.native (FrontMatter.native_extract hExtract)
  | ok parts =>
      obtain ⟨headers, text⟩ := parts
      have hAdmits : x.Admits (opening source text) := by
        unfold Comparison.Admits
        rw [hStart]
        exact x.refl _
      have hRun := Agrees.passes hEnv (.refl fuel) source target (opening source text) hAdmits
      refine hRun.raised error ?_
      dsimp only at h
      split at h
      · cases h
      · rename_i failure hFailure
        cases h
        exact hFailure

end Compiler

end MacroMarkup
