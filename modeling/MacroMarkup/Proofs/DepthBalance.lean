import MacroMarkup.Proofs.DepthLimit
import MacroMarkup.Proofs.Expand.Raised

/-! The depth is the number of levels around the place that is read. A call that succeeds
leaves it as it was, no call runs beyond the limit, and the limit is exceeded by one level
where that is an error. -/
namespace MacroMarkup.Expand

variable {env : Env} {call inner : Call}

/-- Whatever is called from within the limit runs within it. -/
theorem Reaches.depth_le (h : Reaches env call inner)
    (hCall : call.state.document.depth ≤ env.options.maxDepth) :
    inner.state.document.depth ≤ env.options.maxDepth := by
  induction h with
  | refl => exact hCall
  | tail _ hMakes ih => exact hMakes.depth_le ih

/-- A call that succeeds ends on the level on which it started. Of a call within the limit
all calls, however deep inside, start within the limit, and where one of them raises the
error of the limit, it names the limit and is one level beyond it. A call that fails with
this error has such a call inside. -/
theorem depth_balanced (env : Env) (call : Call) :
    (∀ last, call.ending env = (.ok (), last) →
      last.document.depth = call.state.document.depth) ∧
    (call.state.document.depth ≤ env.options.maxDepth →
      ∀ inner, Reaches env call inner →
        inner.state.document.depth ≤ env.options.maxDepth ∧
        ∀ raised limit, inner.Raises env (.error raised) →
          raised.cause = .recursionLimitExceeded limit →
          limit = env.options.maxDepth ∧
            (inner.ending env).2.document.depth = env.options.maxDepth + 1) ∧
    ∀ error limit, call.Fails env (.error error) → error.cause = .recursionLimitExceeded limit →
      ∃ inner raised, Reaches env call inner ∧ inner.Raises env (.error raised) ∧
        raised.cause = .recursionLimitExceeded limit := by
  refine ⟨fun last hEnding => ?_, fun hCall inner hReaches => ?_, ?_⟩
  · exact (level.run env call.fuel call.routine).ok hEnding
  · have hDepth := hReaches.depth_le hCall
    refine ⟨hDepth, fun raised limit hRaises hCause => ?_⟩
    obtain ⟨hLimit, hBeyond, hDeeper⟩ := hRaises.limit hCause
    exact ⟨hLimit, by omega⟩
  · intro error limit hFails hCause
    obtain ⟨inner, raised, hReaches, hRaises, hSame⟩ := hFails.exists_raised
    exact ⟨inner, raised, hReaches, hRaises, hSame.trans hCause⟩

/-- A macro that becomes its own invocation, and a document that invokes it. -/
def looping : ExpandState :=
  (behind "\\newcommand\x7bagain: raw()\x7d\x7b\\again\x7d\n").withDocument
    (DocumentState.start "<string>" "" "\\again" .normalize)

theorem looping_exceeds :
    FailsFrom (wholeDocument (blockReader (plainEnv.withMaxDepth 3) 60)) looping
      (.error ⟨"<string>", "", 0, 6, .recursionLimitExceeded 3⟩) := by
  unfold FailsFrom
  decide +kernel

/-- Three levels are allowed, and the fourth invocation raises the error. -/
theorem depth_balanced_looping :
    ∃ inner raised, Reaches (plainEnv.withMaxDepth 3) ⟨.document, 60, looping⟩ inner ∧
      inner.Raises (plainEnv.withMaxDepth 3) (.error raised) ∧
      inner.state.document.depth ≤ 3 ∧
      (inner.ending (plainEnv.withMaxDepth 3)).2.document.depth = 4 := by
  have hBalanced := depth_balanced (plainEnv.withMaxDepth 3) ⟨.document, 60, looping⟩
  obtain ⟨inner, raised, hReaches, hRaises, hCause⟩ :=
    hBalanced.2.2 _ 3 (failsFrom_return.mpr looping_exceeds) rfl
  obtain ⟨hDepth, hLimit⟩ := hBalanced.2.1 (by decide) inner hReaches
  exact ⟨inner, raised, hReaches, hRaises, hDepth, (hLimit raised 3 hRaises hCause).2⟩

end MacroMarkup.Expand
