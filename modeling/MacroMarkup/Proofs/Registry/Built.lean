import MacroMarkup.Proofs.Registry.Lookup
import MacroMarkup.Proofs.Signature

/-! The registries that expansion works with. Each starts from the builtins and
grows by definitions, which are read from signatures. -/
namespace MacroMarkup

/-- What a signature guarantees of the macro it declares. -/
structure UserMacro.Proper (user : UserMacro) : Prop where
  named : user.name.toList ≠ []
  spelled : ∀ c ∈ user.name.toList, Text.isBlank c = false ∧ c ≠ '\x7b' ∧ c ≠ '\x7d'
  encloses : user.kind = .environment → user.signature.verbatim.getLast? = some true

/-- A declaration that can be read makes a proper macro. -/
theorem Declaration.parse_ok {kind : MacroKind} {text : List Char} {declaration : Declaration}
    (h : Declaration.parse kind text = .ok declaration) (code : String) :
    (UserMacro.ofDefinition (declaration.define kind code)).Proper := by
  obtain ⟨hProper, -⟩ := Declaration.spelled_of_parse h
  refine ⟨hProper.named, fun c hMem => ?_, fun hEnvironment => ?_⟩
  · obtain ⟨hVisible, hOpen, hClose, -⟩ := hProper.spelled c hMem
    exact ⟨hVisible, hOpen, hClose⟩
  · obtain ⟨last, hLast, hVerbatim⟩ := hProper.encloses hEnvironment
    show (declaration.params.map Param.verbatim).getLast? = some true
    rw [List.getLast?_map, hLast]
    exact congrArg some hVerbatim

namespace Registry

/-- Registries that definition statements build from the builtins. -/
inductive Built : Registry → Prop where
  | builtins : Built Registry.builtins
  | define {registry registry' : Registry} {kind : MacroKind} {text : List Char}
      {declaration : Declaration} {code : String} : Built registry →
      Declaration.parse kind text = .ok declaration →
      registry.define (declaration.define kind code) = .ok registry' → Built registry'

/-- A successful definition registers one macro: the one it introduces, or the one whose
signature it repeats with a body in another language. -/
theorem define_ok {registry registry' : Registry} {definition : Definition}
    (h : registry.define definition = .ok registry') :
    ∃ user : UserMacro,
      registry' = registry.register (definition.kind.invocation definition.name) (.user user) ∧
      (registry.userMacro? (definition.kind.invocation definition.name) = none ∧
          user = .ofDefinition definition ∨
        ∃ old, registry.userMacro? (definition.kind.invocation definition.name) = some old ∧
          old.signature = definition.signature ∧
          old.bodies.get? definition.body.language = none ∧
          user = { old with bodies := old.bodies.insert definition.body }) := by
  unfold define at h
  dsimp only at h
  generalize hOld : registry.userMacro? (definition.kind.invocation definition.name) = old at h
  cases old with
  | none =>
      cases h
      exact ⟨_, rfl, .inl ⟨rfl, rfl⟩⟩
  | some old =>
      dsimp only at h
      split at h
      · cases h
      · rename_i hSignature
        split at h
        · cases h
        · rename_i hFree
          cases h
          exact ⟨_, rfl, .inr ⟨old, rfl, not_not.mp hSignature, by simpa using hFree, rfl⟩⟩

/-- A macro that is found is bound to its spelling. -/
theorem bound_of_userMacro? {registry : Registry} {spelling : String} {user : UserMacro}
    (h : registry.userMacro? spelling = some user) :
    registry.bound spelling.toList = some (.user user) := by
  unfold userMacro? at h
  split at h
  · rename_i found hGet
    cases h
    exact hGet
  · cases h

/-- What holds of the spellings of a registry that starts from a table of
builtins and has proper macros added. -/
structure Sound (table : List (String × Builtin)) (registry : Registry) : Prop where
  wellFormed : registry.WellFormed
  builtin : ∀ key builtin, registry.bound key = some (.builtin builtin) →
    ∃ spelling, (spelling, builtin) ∈ table ∧ key = spelling.toList
  user : ∀ key user, registry.bound key = some (.user user) →
    key = (user.kind.invocation user.name).toList ∧ user.Proper
  table : ∀ spelling builtin, (spelling, builtin) ∈ table →
    (registry.bound spelling.toList).isSome

/-- A builtin is registered soundly together with its entry in the table. -/
theorem Sound.registerBuiltin {table : List (String × Builtin)} {registry : Registry}
    (h : Sound table registry) (spelling : String) (builtin : Builtin) :
    Sound (table ++ [(spelling, builtin)]) (registry.register spelling (.builtin builtin)) := by
  refine ⟨h.wellFormed.register _ _, fun key b hBound => ?_, fun key user hBound => ?_,
    fun spelling' b hMem => ?_⟩
  · rw [h.wellFormed.bound_register] at hBound
    split at hBound
    · cases hBound
      exact ⟨spelling, by simp, by assumption⟩
    · obtain ⟨spelling', hMem, hKey⟩ := h.builtin key b hBound
      exact ⟨spelling', List.mem_append_left _ hMem, hKey⟩
  · rw [h.wellFormed.bound_register] at hBound
    split at hBound
    · cases hBound
    · exact h.user key user hBound
  · rw [h.wellFormed.bound_register]
    split
    · rfl
    · rename_i hOther
      rcases List.mem_append.mp hMem with hMem | hMem
      · exact h.table spelling' b hMem
      · simp only [List.mem_singleton, Prod.mk.injEq] at hMem
        exact absurd (congrArg String.toList hMem.1) hOther

/-- A proper macro is registered soundly under its own spelling. -/
theorem Sound.registerUser {table : List (String × Builtin)} {registry : Registry}
    (h : Sound table registry) {user : UserMacro} (hProper : user.Proper) {spelling : String}
    (hSpelling : spelling.toList = (user.kind.invocation user.name).toList) :
    Sound table (registry.register spelling (.user user)) := by
  refine ⟨h.wellFormed.register _ _, fun key builtin hBound => ?_, fun key user' hBound => ?_,
    fun spelling' builtin hMem => ?_⟩
  · rw [h.wellFormed.bound_register] at hBound
    split at hBound
    · cases hBound
    · exact h.builtin key builtin hBound
  · rw [h.wellFormed.bound_register] at hBound
    split at hBound
    · rename_i hKey
      cases hBound
      exact ⟨hKey.trans hSpelling, hProper⟩
    · exact h.user key user' hBound
  · rw [h.wellFormed.bound_register]
    split
    · rfl
    · exact h.table spelling' builtin hMem

/-- A whole table is registered soundly, entry by entry. -/
theorem Sound.registerAll {done : List (String × Builtin)} {registry : Registry}
    (h : Sound done registry) (entries : List (String × Builtin)) :
    Sound (done ++ entries) (entries.foldl (fun registry (spelling, builtin) =>
      registry.register spelling (.builtin builtin)) registry) := by
  induction entries generalizing done registry with
  | nil => simpa using h
  | cons entry entries ih =>
      have hNext := ih (h.registerBuiltin entry.1 entry.2)
      simpa using hNext

/-- The builtins are those of their table. -/
theorem sound_builtins : Sound Builtin.table Registry.builtins := by
  have hEmpty : Sound [] Registry.empty := by
    refine ⟨.empty, fun key builtin h => ?_, fun key user h => ?_, fun _ _ h => by cases h⟩ <;>
      rw [bound, Registry.empty, PrefixIndex.get?_nil] at h <;> cases h
  exact hEmpty.registerAll Builtin.table

/-- Definitions keep a registry sound. -/
theorem Sound.define {registry registry' : Registry} (h : Sound Builtin.table registry)
    {kind : MacroKind} {text : List Char} {declaration : Declaration} {code : String}
    (hParse : Declaration.parse kind text = .ok declaration)
    (hDefine : registry.define (declaration.define kind code) = .ok registry') :
    Sound Builtin.table registry' := by
  obtain ⟨user, rfl, ⟨-, rfl⟩ | ⟨old, hOld, -, -, rfl⟩⟩ := define_ok hDefine
  · exact h.registerUser (Declaration.parse_ok hParse code) rfl
  · obtain ⟨hKey, hProper⟩ := h.user _ _ (bound_of_userMacro? hOld)
    have hProper' : UserMacro.Proper
        { old with bodies := old.bodies.insert (declaration.define kind code).body } :=
      ⟨hProper.named, hProper.spelled, hProper.encloses⟩
    exact h.registerUser hProper' hKey

/-- Every registry that is built is sound. -/
theorem Built.sound {registry : Registry} (h : Built registry) : Sound Builtin.table registry := by
  induction h with
  | builtins => exact sound_builtins
  | define _ hParse hDefine ih => exact ih.define hParse hDefine

theorem Built.wellFormed {registry : Registry} (h : Built registry) : registry.WellFormed :=
  h.sound.wellFormed

/-- A later registry has every macro of an earlier one, with the same kind, name
and signature. -/
def Extends (registry registry' : Registry) : Prop :=
  ∀ key user, registry.bound key = some (.user user) →
    ∃ bodies, registry'.bound key = some (.user { user with bodies })

theorem Extends.refl (registry : Registry) : registry.Extends registry :=
  fun _ user h => ⟨user.bodies, h⟩

theorem Extends.trans {first second third : Registry} (h : first.Extends second)
    (h' : second.Extends third) : first.Extends third := by
  intro key user hBound
  obtain ⟨bodies, hSecond⟩ := h key user hBound
  obtain ⟨bodies', hThird⟩ := h' key _ hSecond
  exact ⟨bodies', hThird⟩

end Registry

end MacroMarkup
