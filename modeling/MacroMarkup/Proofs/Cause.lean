import MacroMarkup.FrontMatter
import MacroMarkup.Registry

/-! Which errors come from the evaluator, or from the limit on the depth. Those of front
matter, of signatures and of definitions do not. -/
namespace MacroMarkup

/-- The cause is neither an error of the evaluator nor the limit on the depth. -/
def ErrorCause.Native (cause : ErrorCause) : Prop :=
  (∀ error, cause ≠ .evaluation error) ∧ ∀ limit, cause ≠ .recursionLimitExceeded limit

def ErrorCause.NativeIn {α : Type} (result : Except ErrorCause α) : Prop :=
  ∀ cause, result = .error cause → cause.Native

namespace ErrorCause.NativeIn

variable {α β : Type}

theorem ok (a : α) : NativeIn (.ok a) :=
  fun _ h => nomatch h

theorem error {cause : ErrorCause} (h : cause.Native) : NativeIn (.error cause : Except _ α) := by
  intro other hOther
  cases hOther
  exact h

theorem bind {result : Except ErrorCause α} {next : α → Except ErrorCause β}
    (h : NativeIn result) (hNext : ∀ a, NativeIn (next a)) : NativeIn (result >>= next) := by
  cases result with
  | error cause => exact error (h cause rfl)
  | ok a => exact hNext a

theorem mapM {f : α → Except ErrorCause β} (h : ∀ a, NativeIn (f a)) (items : List α) :
    NativeIn (items.mapM f) := by
  induction items with
  | nil => exact ok []
  | cons item items ih =>
      rw [List.mapM_cons]
      exact (h item).bind fun _ => ih.bind fun _ => ok _

theorem foldlM {f : β → α → Except ErrorCause β} (h : ∀ b a, NativeIn (f b a)) (b : β)
    (items : List α) : NativeIn (items.foldlM f b) := by
  induction items generalizing b with
  | nil => exact ok b
  | cons item items ih =>
      rw [List.foldlM_cons]
      exact (h b item).bind ih

end ErrorCause.NativeIn

namespace Declaration

open ErrorCause

theorem native_parseParam (text : List Char) : NativeIn (parseParam text) := by
  unfold parseParam
  dsimp only
  split <;> split
  · exact .error ⟨nofun, nofun⟩
  · exact .ok _
  · exact .error ⟨nofun, nofun⟩
  · exact .ok _

/-- A language that is not closed is a native cause. -/
theorem native_parseLanguage? (token : List Char) : NativeIn (parseLanguage? token) := by
  unfold parseLanguage?
  split
  · exact .ok _
  · split
    · exact .ok _
    · dsimp only
      split
      · split
        · exact .ok _
        · exact (NativeIn.mapM native_parseParam _).bind fun _ => .ok _
      · exact .error ⟨nofun, nofun⟩

/-- Tokens that are repeated or unknown are native causes. -/
theorem native_settle (settled : Settled) (token : List Char) : NativeIn (settle settled token) := by
  refine (native_parseLanguage? token).bind fun language => ?_
  split
  · dsimp only
    split
    · exact .error ⟨nofun, nofun⟩
    · exact .ok _
  · dsimp only
    split
    · split
      · exact .error ⟨nofun, nofun⟩
      · exact .ok _
    · split
      · exact .error ⟨nofun, nofun⟩
      · exact .ok _
    · exact .error ⟨nofun, nofun⟩

theorem native_splitName (text : List Char) : NativeIn (splitName text) := by
  unfold splitName
  split
  · exact .error ⟨nofun, nofun⟩
  · split
    · exact .error ⟨nofun, nofun⟩
    · exact .ok _

theorem native_checkKind (kind : MacroKind) (params : List Param) :
    NativeIn (checkKind kind params) := by
  unfold checkKind
  split
  · exact .ok _
  · exact .error ⟨nofun, nofun⟩
  · split
    · exact .ok _
    · exact .error ⟨nofun, nofun⟩

/-- A signature that cannot be read is no matter of the evaluator, nor of the depth. -/
theorem native_parse (kind : MacroKind) (text : List Char) : NativeIn (parse kind text) := by
  refine (native_splitName text).bind fun ⟨name, tail⟩ => ?_
  dsimp only
  split
  · exact .error ⟨nofun, nofun⟩
  · refine (NativeIn.foldlM native_settle _ _).bind fun settled => ?_
    exact (native_checkKind kind _).bind fun _ => .ok _

end Declaration

/-- A definition that cannot be merged is no matter of the evaluator, nor of the depth. -/
theorem Registry.native_define (registry : Registry) (definition : Definition) :
    ErrorCause.NativeIn (registry.define definition) := by
  unfold define
  dsimp only
  split
  · split
    · exact .error ⟨nofun, nofun⟩
    · split
      · exact .error ⟨nofun, nofun⟩
      · exact .ok _
  · exact .ok _

/-- Front matter is refused as it has no end or cannot be read. -/
theorem FrontMatter.cause_of_extract {source : Source} {error : LocatedError}
    (h : extract source = .error error) :
    error.cause = .headerUnterminated ∨ ∃ reason, error.cause = .headerParse reason := by
  unfold extract extractWith at h
  dsimp only at h
  split at h
  · cases h
    exact .inl rfl
  · cases h
  · split at h
    · cases h
    · split at h
      · cases h
      · cases h
        exact .inr ⟨_, rfl⟩

/-- Front matter that is refused is no matter of the evaluator, nor of the depth. -/
theorem FrontMatter.native_extract {source : Source} {error : LocatedError}
    (h : extract source = .error error) : error.cause.Native := by
  rcases cause_of_extract h with hCause | ⟨reason, hCause⟩ <;> rw [hCause] <;> exact ⟨nofun, nofun⟩

end MacroMarkup
