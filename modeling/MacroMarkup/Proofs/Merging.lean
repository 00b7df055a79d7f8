import MacroMarkup.Proofs.Expand.Law
import MacroMarkup.Proofs.Registry.Bodies

/-! Definitions are merged into a registry one at a time, each as a whole or not at all.
Spellings and handlers stay in step over all of them, and what is defined once is never
taken back. -/
namespace MacroMarkup

namespace Spelling

theorem toList_command (name : String) : (command name).toList = '\\' :: name.toList := by
  rw [command, String.toList_append]
  rfl

theorem toList_openEnvironment (name : String) :
    (openEnvironment name).toList =
      ['\\', 'b', 'e', 'g', 'i', 'n', '\x7b'] ++ name.toList ++ ['\x7d'] := by
  rw [openEnvironment, braced, String.toList_append, String.toList_append, String.toList_append]
  simp [environmentBegin, scopeBegin, scopeEnd]

/-- A command is spelled like the opening of an environment just when it is named so. -/
theorem command_eq_openEnvironment_iff (name name' : String) :
    command name = openEnvironment name' ↔ name = "begin" ++ braced name' := by
  have hOpen : openEnvironment name' = command ("begin" ++ braced name') := by
    rw [openEnvironment, command, ← String.append_assoc]
    rfl
  rw [hOpen, ← String.toList_inj, toList_command, toList_command, List.cons.injEq, String.toList_inj]
  exact and_iff_right rfl

end Spelling

namespace MacroKind

/-- What shares a spelling: the same kind and name, or an environment and a command that is
named like its opening. -/
theorem invocation_eq_iff (kind kind' : MacroKind) (name name' : String) :
    kind.invocation name = kind'.invocation name' ↔
      kind = kind' ∧ name = name' ∨
      kind = command ∧ kind' = environment ∧ name = "begin" ++ Spelling.braced name' ∨
      kind = environment ∧ kind' = command ∧ name' = "begin" ++ Spelling.braced name := by
  cases kind <;> cases kind'
  · rw [invocation, invocation, ← String.toList_inj, Spelling.toList_command,
      Spelling.toList_command, List.cons.injEq, String.toList_inj]
    simp
  · rw [invocation, invocation, Spelling.command_eq_openEnvironment_iff]
    simp
  · rw [invocation, invocation, eq_comm, Spelling.command_eq_openEnvironment_iff]
    simp
  · rw [invocation, invocation, ← String.toList_inj, Spelling.toList_openEnvironment,
      Spelling.toList_openEnvironment, List.append_left_inj, List.append_right_inj, String.toList_inj]
    simp

/-- Without braces in the names, every kind and name has a spelling of its own. -/
theorem invocation_injective {kind kind' : MacroKind} {name name' : String}
    (hName : '\x7b' ∉ name.toList) (hName' : '\x7b' ∉ name'.toList)
    (h : kind.invocation name = kind'.invocation name') : kind = kind' ∧ name = name' := by
  have hBrace : ∀ inner, '\x7b' ∈ ("begin" ++ Spelling.braced inner).toList := by
    intro inner
    rw [Spelling.braced, String.toList_append, String.toList_append, String.toList_append]
    simp [Spelling.scopeBegin]
  rcases (invocation_eq_iff kind kind' name name').mp h with hSame | ⟨-, -, rfl⟩ | ⟨-, -, rfl⟩
  · exact hSame
  · exact absurd (hBrace name') hName
  · exact absurd (hBrace name) hName'

end MacroKind

/-- The spelling that a definition introduces, or adds a body to. -/
def Definition.spelling (definition : Definition) : String :=
  definition.kind.invocation definition.name

/-- No name that a declaration is read with has a brace. -/
theorem Declaration.no_brace {kind : MacroKind} {text : List Char} {declaration : Declaration}
    (h : Declaration.parse kind text = .ok declaration) : '\x7b' ∉ declaration.name.toList :=
  fun hMem => ((Declaration.parse_ok h "").spelled _ hMem).2.1 rfl

namespace Registry

/-- Spellings and handlers in step: every spelling has a slot of its own, every slot has a
spelling, and a macro stands under the spelling of its own kind and name. -/
structure Filed (registry : Registry) : Prop extends WellFormed registry where
  occupied : ∀ place < registry.handlers.size, ∃ key, registry.index.get? key = some place
  counted : registry.size = registry.handlers.size
  spelled : ∀ key user, registry.bound key = some (.user user) →
    key = (user.kind.invocation user.name).toList

theorem Filed.empty : Filed Registry.empty where
  toWellFormed := .empty
  occupied place h := absurd h (Nat.not_lt_zero place)
  counted := rfl
  spelled key user h := by
    rw [bound, Registry.empty, PrefixIndex.get?_nil] at h
    cases h

/-- A spelling that has a slot keeps it. -/
theorem WellFormed.place_register {registry : Registry} (h : registry.WellFormed) (spelling : String)
    (handler : Handler) {key : List Char} {place : Nat}
    (hPlace : registry.index.get? key = some place) :
    (registry.register spelling handler).index.get? key = some place := by
  unfold Registry.register
  generalize hFound : registry.index.get? spelling.toList = found
  cases found with
  | some place' => exact hPlace
  | none =>
      rw [PrefixIndex.get?_insert h.sorted, if_neg, hPlace]
      rintro rfl
      rw [hFound] at hPlace
      cases hPlace

/-- A handler is filed under its spelling, if that is its own. -/
theorem Filed.register {registry : Registry} (h : registry.Filed) {spelling : String}
    {handler : Handler} (hSpelled : ∀ user, handler = .user user →
      spelling.toList = (user.kind.invocation user.name).toList) :
    (registry.register spelling handler).Filed where
  toWellFormed := h.toWellFormed.register spelling handler
  occupied place hPlace := by
    by_cases hOld : place < registry.handlers.size
    · obtain ⟨key, hKey⟩ := h.occupied place hOld
      exact ⟨key, h.place_register spelling handler hKey⟩
    · -- The one new slot is that of the spelling itself.
      unfold Registry.register at hPlace ⊢
      generalize hFound : registry.index.get? spelling.toList = found at hPlace ⊢
      cases found with
      | some place' => exact absurd (by simpa using hPlace) hOld
      | none =>
          simp only [Array.size_push] at hPlace
          refine ⟨spelling.toList, ?_⟩
          rw [PrefixIndex.get?_insert h.sorted, if_pos rfl, Option.some.injEq]
          omega
  counted := by
    unfold Registry.register
    generalize hFound : registry.index.get? spelling.toList = found
    cases found with
    | some place => simpa [size] using h.counted
    | none =>
        have hCounted : registry.index.size = registry.handlers.size := h.counted
        simp only [size, PrefixIndex.size_insert h.sorted, hFound, Option.isSome_none,
          Bool.false_eq_true, if_false, Array.size_push, hCounted]
  spelled key user hBound := by
    rw [h.bound_register] at hBound
    split at hBound
    · rename_i hKey
      cases hBound
      exact hKey.trans (hSpelled user rfl)
    · exact h.spelled key user hBound

/-- The builtins are filed. -/
theorem Filed.builtins : Filed Registry.builtins := by
  unfold Registry.builtins
  refine List.foldlRecOn _ _ Filed.empty fun registry hFiled entry _ => hFiled.register ?_
  intro user hUser
  cases hUser

/-- A definition is filed under its spelling, in a slot of its own or of its macro. -/
theorem Filed.define {registry registry' : Registry} (h : registry.Filed) {definition : Definition}
    (hDefine : registry.define definition = .ok registry') : registry'.Filed := by
  obtain ⟨user, rfl, ⟨-, rfl⟩ | ⟨old, hOld, -, -, rfl⟩⟩ := define_ok hDefine
  · exact h.register fun user hUser => by cases hUser; rfl
  · exact h.register fun user hUser => by
      cases hUser
      exact h.spelled _ old (bound_of_userMacro? hOld)

/-- What later definitions leave: the places of the spellings, the macros but for bodies in
further languages, and whatever they do not spell. -/
structure Kept (definitions : List Definition) (registry registry' : Registry) : Prop where
  place : ∀ key place, registry.index.get? key = some place →
    registry'.index.get? key = some place
  frozen : registry.Frozen registry'
  other : ∀ key, (∀ definition ∈ definitions,
    key ≠ (definition.kind.invocation definition.name).toList) →
      registry'.bound key = registry.bound key

theorem Kept.refl (registry : Registry) : Kept [] registry registry :=
  ⟨fun _ _ h => h, Frozen.refl registry, fun _ _ => rfl⟩

theorem Kept.trans {definitions definitions' : List Definition} {first second third : Registry}
    (h : Kept definitions first second) (h' : Kept definitions' second third) :
    Kept (definitions ++ definitions') first third where
  place key place hPlace := h'.place key place (h.place key place hPlace)
  frozen := h.frozen.trans h'.frozen
  other key hOther := by
    rw [h'.other key fun definition hMem => hOther definition (List.mem_append_right _ hMem),
      h.other key fun definition hMem => hOther definition (List.mem_append_left _ hMem)]

/-- A definition keeps all others, and all bodies in other languages. -/
theorem WellFormed.define_kept {registry registry' : Registry} (h : registry.WellFormed)
    {definition : Definition} (hDefine : registry.define definition = .ok registry') :
    Kept [definition] registry registry' where
  place key place hPlace := by
    obtain ⟨user, rfl, -⟩ := define_ok hDefine
    exact h.place_register _ _ hPlace
  frozen := h.define_frozen hDefine
  other key hOther := by
    obtain ⟨user, rfl, -⟩ := define_ok hDefine
    rw [h.bound_register, if_neg (hOther definition (List.mem_singleton_self definition))]

end Registry

namespace Expand

/-- Adds a definition to the session. This is the last step of a definition statement. -/
def merge (definition : Definition) : Expand Unit := do
  setRegistry (← located ((← registry).define definition))

/-- Reads a definition statement behind its directive, up to the merge. -/
def readDefinition (kind : MacroKind) : Expand Definition := do
  let indent := (← document).reader.indent
  let signature ← verbatimScope
  let declaration ← located (Declaration.parse kind signature.toList)
  let code ← definitionBody indent
  return declaration.define kind code

/-- A definition statement is read as a whole before it is merged. -/
theorem define_eq_merge (kind : MacroKind) : define kind = readDefinition kind >>= merge := by
  simp only [define, readDefinition, merge, bind_assoc, pure_bind]

/-- Reading text leaves the session as it is. -/
theorem sessionKept : ScanningLaw (fun s s' => s'.session = s.session)
    fun _ s s' => s'.session = s.session where
  refl _ := rfl
  trans h h' := h'.trans h
  failing _ _ _ h := h
  following _ _ _ _ h h' := h'.trans h
  reading _ _ := rfl

/-- Reading a definition leaves the registry as it is. -/
theorem readDefinition_session (kind : MacroKind) (s : ExpandState) :
    (outcome (readDefinition kind) s).2.session = s.session := by
  have hObeys : Obeys _ _ (readDefinition kind) :=
    sessionKept.bind sessionKept.document fun _ => sessionKept.bind sessionKept.verbatimScope fun _ =>
      sessionKept.bind (sessionKept.located _) fun _ =>
        sessionKept.bind (sessionKept.definitionBody _) fun _ => sessionKept.pure _
  exact hObeys.always rfl

/-- A definition is merged as a whole or not at all. -/
theorem outcome_merge (definition : Definition) (s : ExpandState) :
    outcome (merge definition) s =
      match s.session.registry.define definition with
      | .ok registry => (.ok (), s.withRegistry registry)
      | .error cause => (.error (.error (s.document.error cause)), s) := by
  unfold merge
  rw [outcome_bind_of_ok (outcome_registry s), outcome_bind, outcome_located]
  cases s.session.registry.define definition <;> rfl

/-- The state behind definitions that are merged one after the other, whether each of them
succeeds or fails. -/
def mergeAll : List Definition → ExpandState → ExpandState
  | [], s => s
  | definition :: definitions, s => mergeAll definitions (outcome (merge definition) s).2

/-- One step: a definition is merged, or nothing changes. -/
theorem merge_kept (definition : Definition) {s : ExpandState} (h : s.session.registry.Filed) :
    (outcome (merge definition) s).2.session.registry.Filed ∧
      s.session.registry.Kept [definition] (outcome (merge definition) s).2.session.registry := by
  rw [outcome_merge]
  generalize hDefine : s.session.registry.define definition = defined
  cases defined with
  | ok registry => exact ⟨h.define hDefine, h.define_kept hDefine⟩
  | error cause => exact ⟨h, fun _ _ h => h, .refl _, fun _ _ => rfl⟩

/-- The run law: by induction on the definitions. -/
theorem mergeAll_kept (definitions : List Definition) {s : ExpandState}
    (h : s.session.registry.Filed) :
    (mergeAll definitions s).session.registry.Filed ∧
      s.session.registry.Kept definitions (mergeAll definitions s).session.registry := by
  induction definitions generalizing s with
  | nil => exact ⟨h, .refl _⟩
  | cons definition definitions ih =>
      obtain ⟨hFiled, hKept⟩ := merge_kept definition h
      obtain ⟨hFiled', hKept'⟩ := ih hFiled
      exact ⟨hFiled', hKept.trans hKept'⟩

/-- A definition that is refused leaves everything as it was. -/
theorem merge_failed {definition : Definition} {s last : ExpandState} {failure : Failure}
    (h : outcome (merge definition) s = (.error failure, last)) : last = s := by
  rw [outcome_merge] at h
  split at h
  · cases h
  · exact (Prod.mk.inj h).2.symm

/-- A definition statement takes the session one definition further, or fails and leaves
it. -/
theorem define_session {kind : MacroKind} {s s' : ExpandState} {result : Except Failure Unit}
    (h : outcome (define kind) s = (result, s')) :
    (∃ failure, result = .error failure) ∧ s'.session = s.session ∨
    result = .ok () ∧ ∃ definition, s'.session = (mergeAll [definition] s).session := by
  rw [define_eq_merge, outcome_bind] at h
  have hRead := readDefinition_session kind s
  generalize outcome (readDefinition kind) s = read at h hRead
  obtain ⟨_ | definition, middle⟩ := read
  · cases h
    exact .inl ⟨⟨_, rfl⟩, hRead⟩
  · dsimp only at h
    rw [outcome_merge, hRead] at h
    generalize hDefine : s.session.registry.define definition = defined at h
    cases defined with
    | error cause =>
        cases h
        exact .inl ⟨⟨_, rfl⟩, hRead⟩
    | ok registry =>
        cases h
        refine .inr ⟨rfl, definition, ?_⟩
        rw [mergeAll, mergeAll, outcome_merge, hDefine]
        exact congrArg (fun session : Session => { session with registry }) hRead

/-- Over any definitions, merged or refused, that start from no spellings or from the
builtins, spellings and handlers are in step. A definition that is refused leaves all as
it was. Later definitions leave every macro as it is, but for bodies in further languages,
and every handler whose spelling is not theirs. A definition statement of a document merges
one definition or leaves the session. Two kinds and names share a spelling only if one is
an environment and the other a command named like its opening, which no signature can
declare. -/
theorem definitions_frozen {s : ExpandState}
    (hFresh : s.session.registry = .empty ∨ s.session.registry = .builtins)
    (definitions later : List Definition) :
    let reached := mergeAll definitions s
    let last := mergeAll later reached
    reached.session.registry.Filed ∧
    (∀ definition failure after, outcome (merge definition) reached = (.error failure, after) →
      after = reached) ∧
    reached.session.registry.Kept later last.session.registry ∧
    (∀ kind result after, outcome (define kind) reached = (result, after) →
      (∃ failure, result = .error failure) ∧ after.session = reached.session ∨
      result = .ok () ∧ ∃ definition, after.session = (mergeAll [definition] reached).session) ∧
    (∀ kind kind' text text' declaration declaration', Declaration.parse kind text = .ok declaration →
      Declaration.parse kind' text' = .ok declaration' →
      kind.invocation declaration.name = kind'.invocation declaration'.name →
      kind = kind' ∧ declaration.name = declaration'.name) ∧
    ∀ (kind kind' : MacroKind) (name name' : String), kind.invocation name = kind'.invocation name' ↔
      kind = kind' ∧ name = name' ∨
      kind = .command ∧ kind' = .environment ∧ name = "begin" ++ Spelling.braced name' ∨
      kind = .environment ∧ kind' = .command ∧ name' = "begin" ++ Spelling.braced name := by
  have hStart : s.session.registry.Filed := by
    rcases hFresh with hEmpty | hBuiltins
    · rw [hEmpty]
      exact .empty
    · rw [hBuiltins]
      exact .builtins
  have hReached := (mergeAll_kept definitions hStart).1
  exact ⟨hReached, fun _ _ _ hFailed => merge_failed hFailed, (mergeAll_kept later hReached).2,
    fun _ _ _ hDefine => define_session hDefine,
    fun _ _ _ _ _ _ hParse hParse' h => MacroKind.invocation_injective
      (Declaration.no_brace hParse) (Declaration.no_brace hParse') h,
    MacroKind.invocation_eq_iff⟩

/-- A macro made by hand, with one verbatim argument. -/
def handmade (kind : MacroKind) (name : String) (language : Language) : Definition :=
  { kind, name, signature := ⟨[true], .normalize, .wrapInParagraph⟩,
    body := { language, params := ["body"], code := "#body" } }

/-- Nothing keeps a definition made by hand from a name with braces. A command named like
the opening of an environment and the environment itself are both accepted then, one after
the other, and have one spelling and one slot between them. -/
theorem spelling_shared :
    let command := handmade .command "begin\x7bx\x7d" .raw
    let environment := handmade .environment "x" .script
    (command.kind, command.name) ≠ (environment.kind, environment.name) ∧
    command.kind.invocation command.name = environment.kind.invocation environment.name ∧
    ∃ registry registry', Registry.empty.define command = .ok registry ∧
      registry.define environment = .ok registry' ∧ registry.size = 1 ∧ registry'.size = 1 ∧
      registry'.handlers.size = 1 :=
  ⟨by decide, rfl, _, _, rfl, rfl, rfl, rfl, rfl⟩

def greeting (language : Language) (code : String) : Definition :=
  { kind := .command, name := "hello", signature := ⟨[], .normalize, .wrapInParagraph⟩,
    body := { language, params := [], code } }

def unmerged : ExpandState :=
  { session := .ofRegistry .builtins, document := .start "test.ctx" "." "" .normalize }

theorem definitions_frozen_greeting :
    unmerged.session.registry = .builtins ∧
    (mergeAll [greeting .raw "Hello"] unmerged).session.registry.size =
      Registry.builtins.size + 1 ∧
    (outcome (merge (greeting .raw "Bye")) (mergeAll [greeting .raw "Hello"] unmerged)).1 =
      .error (.error ((DocumentState.start "test.ctx" "." "" .normalize).error .conflictCode)) ∧
    (mergeAll [greeting .raw "Hello"] unmerged).session.registry.Kept
      [greeting .raw "Bye", greeting .script "'Hello'"]
      (mergeAll [greeting .raw "Bye", greeting .script "'Hello'"]
        (mergeAll [greeting .raw "Hello"] unmerged)).session.registry :=
  ⟨rfl, by decide +kernel, by decide +kernel,
    (definitions_frozen (.inr rfl) [greeting .raw "Hello"]
      [greeting .raw "Bye", greeting .script "'Hello'"]).2.2.1⟩

end Expand

end MacroMarkup
