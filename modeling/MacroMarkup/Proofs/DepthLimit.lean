import MacroMarkup.Proofs.Compilation

/-! The limit on the depth of expansion is a guard and nothing else. A compilation that does
not run into it comes out the same under every greater limit. -/
namespace MacroMarkup

def Env.withMaxDepth (env : Env) (limit : Nat) : Env :=
  { env with options := { env.options with maxDepth := limit } }

namespace Expand

/-- Nothing is said where the first of two runs exceeds its limit. -/
def withinDepth (limit : Nat) : Comparison where
  start := Session.ofRegistry Registry.builtins
  later _ _ := True
  raised _ := True
  excepted failure := ∃ error, failure = .error error ∧ error.cause = .recursionLimitExceeded limit
  beyond _ := False
  refl _ := trivial
  trans _ _ := trivial
  defining _ _ := trivial
  loading _ := trivial
  native _ := trivial
  relocated current failure := by
    rintro ⟨error, rfl, hCause⟩
    unfold relocate
    dsimp only
    split
    · exact ⟨_, rfl, hCause⟩
    · exact ⟨error, rfl, hCause⟩
  lasting h _ := h

/-- The one check in which the runs differ. -/
theorem descend_withMaxDepth {env : Env} {limit : Nat} (hLimit : env.options.maxDepth ≤ limit) :
    Agrees (withinDepth env.options.maxDepth) (descend env) (descend (env.withMaxDepth limit)) := by
  intro s _
  refine ⟨trivial, fun _ _ => trivial, ?_⟩
  rw [outcome_descend, outcome_descend]
  split
  · exact .inl (.inl ⟨_, rfl, _, rfl, rfl⟩)
  · rename_i hWithin
    have hWithin' : ¬ limit < s.document.depth + 1 := by omega
    exact .inr (if_neg hWithin')

/-- A run with a greater limit is the one with the lesser limit, up to the error of that
limit. -/
theorem exchange_withMaxDepth {env : Env} {limit : Nat} (hLimit : env.options.maxDepth ≤ limit) :
    (withinDepth env.options.maxDepth).Exchange env (env.withMaxDepth limit) where
  descending := descend_withMaxDepth hLimit
  resolving _ _ := rfl
  reading _ _ _ := .inr rfl
  supports := rfl
  evaluating _ _ _ := ⟨fun _ _ => trivial, .inr rfl⟩
  preload := rfl

end Expand

namespace Compiler

open Expand

/-- A compilation that succeeds, or fails with another error than that of its limit, does so
under every greater limit, with the same output or the same error at the same place. -/
theorem greater_limit {fuel : Nat} {env : Env} {source : Source} {target : Target} {limit : Nat}
    (hLimit : env.options.maxDepth ≤ limit)
    (hWithin : ∀ error, compileWith fuel env source target = .error (.error error) →
      error.cause ≠ .recursionLimitExceeded env.options.maxDepth) :
    compileWith fuel (env.withMaxDepth limit) source target =
      compileWith fuel env source target := by
  refine compileWith_same (exchange_withMaxDepth hLimit) (.refl fuel) rfl ?_ id
  rintro failure hFailure ⟨error, rfl, hCause⟩
  exact hWithin error hFailure hCause

/-- An invocation in the argument of another, which goes four levels deep. -/
def nested : Source :=
  Source.ofText "\\newcommand\x7bem: raw(a)\x7d\x7b<#a>\x7d\n\\em\x7b\\em\x7bx\x7d\x7d"

theorem nested_within : failure? (compileWith 60 (plainEnv.withMaxDepth 4) nested .web) = none := by
  decide +kernel

/-- Four levels are enough, so that nine make no difference; three are not. -/
theorem greater_limit_nested :
    compileWith 60 (plainEnv.withMaxDepth 9) nested .web =
      compileWith 60 (plainEnv.withMaxDepth 4) nested .web ∧
    failure? (compileWith 60 (plainEnv.withMaxDepth 3) nested .web) =
      some (.error ⟨"<string>", "", 1, 8, .recursionLimitExceeded 3⟩) := by
  refine ⟨@greater_limit 60 (plainEnv.withMaxDepth 4) nested .web 9 (by decide) fun error hError => ?_,
    by decide +kernel⟩
  have hWithin := nested_within
  rw [hError] at hWithin
  cases hWithin

end Compiler

end MacroMarkup
