import MacroMarkup.Proofs.Merging

/-! The order of definitions. A list of definitions can be merged into the builtins if and
only if no two of them contradict each other, and what the registry then finds along a text
depends on the members of the list alone. -/
namespace MacroMarkup

namespace Definition

/-- A definition as a statement makes it: its signature was read from a text. -/
def Declared (definition : Definition) : Prop :=
  ∃ text declaration code, Declaration.parse definition.kind text = .ok declaration ∧
    definition = declaration.define definition.kind code

/-- Definitions that one registry can hold. If they are of one macro, they agree on its
signature and are written in different languages. -/
def Compatible (definition other : Definition) : Prop :=
  definition.kind = other.kind → definition.name = other.name →
    definition.signature = other.signature ∧ definition.body.language ≠ other.body.language

instance (definition other : Definition) : Decidable (definition.Compatible other) :=
  inferInstanceAs (Decidable (_ → _ → _))

/-- Compatibility goes both ways. -/
theorem Compatible.symm {definition other : Definition} (h : definition.Compatible other) :
    other.Compatible definition := by
  intro hKind hName
  obtain ⟨hSignature, hLanguage⟩ := h hKind.symm hName.symm
  exact ⟨hSignature.symm, hLanguage.symm⟩

/-- No declared name has a brace. -/
theorem Declared.no_brace {definition : Definition} (h : definition.Declared) :
    '\x7b' ∉ definition.name.toList := by
  obtain ⟨text, declaration, code, hParse, hDefinition⟩ := h
  have hName : definition.name = declaration.name := congrArg name hDefinition
  rw [hName]
  exact Declaration.no_brace hParse

/-- Declared definitions share a spelling only if they are of one macro. -/
theorem Declared.spelling_inj {definition other : Definition} (h : definition.Declared)
    (h' : other.Declared) :
    definition.spelling.toList = other.spelling.toList ↔
      definition.kind = other.kind ∧ definition.name = other.name := by
  constructor
  · intro hSpelling
    exact MacroKind.invocation_injective h.no_brace h'.no_brace (String.toList_inj.mp hSpelling)
  · rintro ⟨hKind, hName⟩
    rw [spelling, spelling, hKind, hName]

end Definition

/-- Of the bodies, one more is bound, under the language that it is written in. -/
theorem Bodies.get?_insert (bodies : Bodies) (body : MacroBody) (language : Language) :
    (bodies.insert body).get? language =
      if language = body.language then some body else bodies.get? language := by
  unfold insert
  cases hLanguage : body.language <;> cases language <;> rfl

/-- Bodies are determined by what they are in each language. -/
theorem Bodies.ext_get? {bodies bodies' : Bodies}
    (h : ∀ language, bodies.get? language = bodies'.get? language) : bodies = bodies' := by
  obtain ⟨raw, script⟩ := bodies
  obtain ⟨raw', script'⟩ := bodies'
  exact congrArg₂ Bodies.mk (h .raw) (h .script)

namespace Registry

/-- The bodies that the definitions of a spelling bind. -/
def Binds (definitions : List Definition) (spelling : String) (bodies : Bodies) : Prop :=
  ∀ language body, bodies.get? language = some body ↔
    ∃ definition ∈ definitions, definition.spelling.toList = spelling.toList ∧
      definition.body = body ∧ body.language = language

/-- A registry that holds the builtins, all that some definitions say, and nothing else. -/
structure Collects (definitions : List Definition) (registry : Registry) : Prop where
  wellFormed : registry.WellFormed
  defined : ∀ definition ∈ definitions, ∃ bodies, Binds definitions definition.spelling bodies ∧
    registry.bound definition.spelling.toList =
      some (.user ⟨definition.kind, definition.name, definition.signature, bodies⟩)
  other : ∀ key, (∀ definition ∈ definitions, key ≠ definition.spelling.toList) →
    registry.bound key = builtins.bound key

theorem Collects.builtins : Collects [] Registry.builtins where
  wellFormed := Filed.builtins.toWellFormed
  defined _ hMem := absurd hMem List.not_mem_nil
  other _ _ := rfl

theorem Binds.congr {definitions definitions' : List Definition}
    (hSame : ∀ definition, definition ∈ definitions ↔ definition ∈ definitions')
    {spelling : String} {bodies : Bodies} (h : Binds definitions spelling bodies) :
    Binds definitions' spelling bodies := by
  intro language body
  rw [h language body]
  simp only [hSame]

/-- Only the members of the list count. -/
theorem Collects.congr {definitions definitions' : List Definition} {registry : Registry}
    (hSame : ∀ definition, definition ∈ definitions ↔ definition ∈ definitions')
    (h : Collects definitions registry) : Collects definitions' registry where
  wellFormed := h.wellFormed
  defined definition hMem := by
    obtain ⟨bodies, hBinds, hBound⟩ := h.defined definition ((hSame definition).mpr hMem)
    exact ⟨bodies, hBinds.congr hSame, hBound⟩
  other key hOther :=
    h.other key fun definition hMem => hOther definition ((hSame definition).mp hMem)

/-- The definitions of a spelling say what its bodies are. -/
theorem Binds.unique {definitions : List Definition} {spelling : String} {bodies bodies' : Bodies}
    (h : Binds definitions spelling bodies) (h' : Binds definitions spelling bodies') :
    bodies = bodies' := by
  refine Bodies.ext_get? fun language => Option.ext fun body => ?_
  rw [h language body, h' language body]

/-- The definitions settle what every spelling is bound to. -/
theorem Collects.bound_eq {definitions : List Definition} {registry registry' : Registry}
    (h : Collects definitions registry) (h' : Collects definitions registry') (key : List Char) :
    registry'.bound key = registry.bound key := by
  by_cases hKey : ∃ definition ∈ definitions, key = definition.spelling.toList
  · obtain ⟨definition, hMem, rfl⟩ := hKey
    obtain ⟨bodies, hBinds, hBound⟩ := h.defined definition hMem
    obtain ⟨bodies', hBinds', hBound'⟩ := h'.defined definition hMem
    rw [hBound, hBound', hBinds.unique hBinds']
  · have hOther : ∀ definition ∈ definitions, key ≠ definition.spelling.toList :=
      fun definition hMem hSame => hKey ⟨definition, hMem, hSame⟩
    rw [h.other key hOther, h'.other key hOther]

/-- Registries that bind every spelling alike find the same along every text. -/
theorem WellFormed.lookup?_congr {registry registry' : Registry} (h : registry.WellFormed)
    (h' : registry'.WellFormed) (hSame : ∀ key, registry'.bound key = registry.bound key)
    (text : List Char) : registry'.lookup? text = registry.lookup? text := by
  refine Option.ext fun found => ?_
  obtain ⟨length, handler⟩ := found
  rw [h.lookup?_eq_some_iff, h'.lookup?_eq_some_iff]
  have hLongest : ∀ key, registry'.Longest text key handler ↔ registry.Longest text key handler :=
    fun key => ⟨fun hFound => ⟨hFound.ne_nil, hFound.matched, hSame key ▸ hFound.bound,
        fun key' hMatched hSome => hFound.longest key' hMatched (hSame key' ▸ hSome)⟩,
      fun hFound => ⟨hFound.ne_nil, hFound.matched, (hSame key).trans hFound.bound,
        fun key' hMatched hSome => hFound.longest key' hMatched (hSame key' ▸ hSome)⟩⟩
  simp only [hLongest]

/-- A macro that is bound is found. -/
theorem userMacro?_of_bound {registry : Registry} {spelling : String} {user : UserMacro}
    (h : registry.bound spelling.toList = some (.user user)) :
    registry.userMacro? spelling = some user := by
  unfold userMacro?
  rw [get?_eq_bound, h]

/-- What a registry has under the spelling of one more definition: no macro, or the one
that all earlier definitions of the spelling have settled. -/
theorem Collects.userMacro? {definitions : List Definition} {registry : Registry}
    (h : Collects definitions registry) (spelling : String) :
    (∀ definition ∈ definitions, definition.spelling.toList ≠ spelling.toList) ∧
        registry.userMacro? spelling = none ∨
      ∃ user, registry.userMacro? spelling = some user ∧ Binds definitions spelling user.bodies ∧
        (∃ definition ∈ definitions, definition.spelling.toList = spelling.toList) ∧
        ∀ definition ∈ definitions, definition.spelling.toList = spelling.toList →
          user.kind = definition.kind ∧ user.name = definition.name ∧
            user.signature = definition.signature := by
  by_cases hOld : ∃ definition ∈ definitions, definition.spelling.toList = spelling.toList
  · obtain ⟨first, hMem, hFirst⟩ := hOld
    obtain ⟨bodies, hBinds, hBound⟩ := h.defined first hMem
    rw [hFirst] at hBound
    refine .inr ⟨_, userMacro?_of_bound hBound, ?_, ⟨first, hMem, hFirst⟩, ?_⟩
    · intro language body
      rw [hBinds language body, hFirst]
    · intro definition hMem' hSpelling
      obtain ⟨bodies', -, hBound'⟩ := h.defined definition hMem'
      rw [hSpelling, hBound] at hBound'
      obtain ⟨hKind, hName, hSignature, -⟩ :=
        UserMacro.mk.inj (Handler.user.inj (Option.some.inj hBound'))
      exact ⟨hKind, hName, hSignature⟩
  · have hNone : ∀ definition ∈ definitions, definition.spelling.toList ≠ spelling.toList :=
      fun definition hMem hSame => hOld ⟨definition, hMem, hSame⟩
    have hBuiltins := h.other spelling.toList fun definition hMem => (hNone definition hMem).symm
    refine .inl ⟨hNone, ?_⟩
    cases hUser : registry.userMacro? spelling with
    | none => rfl
    | some user =>
        have hBound := bound_of_userMacro? hUser
        rw [hBuiltins] at hBound
        cases of_all_handlers handlers_builtins hBound

/-- One more definition is merged where it is compatible with all earlier ones. -/
theorem Collects.define_ok_iff {definitions : List Definition} {registry : Registry}
    (h : Collects definitions registry) {definition : Definition} (hDeclared : definition.Declared)
    (hEarlier : ∀ earlier ∈ definitions, earlier.Declared) :
    (∃ registry', registry.define definition = .ok registry') ↔
      ∀ earlier ∈ definitions, earlier.Compatible definition := by
  have hSpelling : ∀ {earlier}, earlier ∈ definitions → earlier.kind = definition.kind →
      earlier.name = definition.name → earlier.spelling.toList = definition.spelling.toList :=
    fun hMem hKind hName => ((hEarlier _ hMem).spelling_inj hDeclared).mpr ⟨hKind, hName⟩
  constructor
  · rintro ⟨registry', hDefine⟩ earlier hMem hKind hName
    obtain ⟨-, -, ⟨hFree, -⟩ | ⟨old, hOld, hSignature, hLanguage, -⟩⟩ := Registry.define_ok hDefine
    · rcases h.userMacro? definition.spelling with ⟨hNone, -⟩ | ⟨user, hUser, -⟩
      · exact absurd (hSpelling hMem hKind hName) (hNone earlier hMem)
      · cases hUser.symm.trans hFree
    · rcases h.userMacro? definition.spelling with ⟨-, hNone⟩ | ⟨user, hUser, hBinds, -, hSettled⟩
      · cases hNone.symm.trans hOld
      · cases hUser.symm.trans hOld
        refine ⟨(hSettled earlier hMem (hSpelling hMem hKind hName)).2.2.symm.trans hSignature, ?_⟩
        intro hSame
        have hBody := (hBinds definition.body.language earlier.body).mpr
          ⟨earlier, hMem, hSpelling hMem hKind hName, rfl, hSame⟩
        cases hBody.symm.trans hLanguage
  · intro hCompatible
    unfold Registry.define
    dsimp only
    rcases h.userMacro? definition.spelling with
      ⟨-, hNone⟩ | ⟨user, hUser, hBinds, hFirst, hSettled⟩
    · exact ⟨_, by rw [← Definition.spelling, hNone]⟩
    · obtain ⟨first, hMem, hSame⟩ := hFirst
      obtain ⟨-, -, hSignature⟩ := hSettled first hMem hSame
      obtain ⟨hKind, hName⟩ := ((hEarlier first hMem).spelling_inj hDeclared).mp hSame
      have hFree : user.bodies.get? definition.body.language = none := by
        rw [Option.eq_none_iff_forall_ne_some]
        intro body hBody
        obtain ⟨earlier, hMem', hSame', rfl, hLanguage⟩ := (hBinds _ body).mp hBody
        obtain ⟨hKind', hName'⟩ := ((hEarlier earlier hMem').spelling_inj hDeclared).mp hSame'
        exact (hCompatible earlier hMem' hKind' hName').2 hLanguage
      have hAgree := hSignature.trans (hCompatible first hMem hKind hName).1
      rw [← Definition.spelling, hUser]
      dsimp only
      rw [if_neg (not_not.mpr hAgree), hFree]
      exact ⟨_, rfl⟩

/-- What the definitions bind under a spelling when there is one more of them. -/
theorem Binds.insert {definitions : List Definition} {definition : Definition} {bodies : Bodies}
    (h : Binds definitions definition.spelling bodies)
    (hFree : bodies.get? definition.body.language = none) :
    Binds (definition :: definitions) definition.spelling (bodies.insert definition.body) := by
  intro language body
  rw [Bodies.get?_insert]
  by_cases hLanguage : language = definition.body.language
  · rw [if_pos hLanguage, hLanguage, Option.some.injEq]
    constructor
    · rintro rfl
      exact ⟨definition, List.mem_cons_self, rfl, rfl, rfl⟩
    · rintro ⟨other, hMem, hSpelling, rfl, hSame⟩
      rcases List.mem_cons.mp hMem with rfl | hMem
      · rfl
      · have hBody := (h definition.body.language other.body).mpr
          ⟨other, hMem, hSpelling, rfl, hSame⟩
        cases hBody.symm.trans hFree
  · rw [if_neg hLanguage, h language body]
    constructor
    · rintro ⟨other, hMem, hOther⟩
      exact ⟨other, List.mem_cons_of_mem _ hMem, hOther⟩
    · rintro ⟨other, hMem, hSpelling, rfl, rfl⟩
      rcases List.mem_cons.mp hMem with rfl | hMem
      · exact absurd rfl hLanguage
      · exact ⟨other, hMem, hSpelling, rfl, rfl⟩

/-- Under another spelling nothing changes. -/
theorem Binds.skip {definitions : List Definition} {definition : Definition} {spelling : String}
    {bodies : Bodies} (h : Binds definitions spelling bodies)
    (hOther : definition.spelling.toList ≠ spelling.toList) :
    Binds (definition :: definitions) spelling bodies := by
  intro language body
  rw [h language body]
  simp [hOther]

/-- The macro that a merged definition leaves under its spelling speaks for all definitions
of the spelling. -/
theorem Collects.merged {definitions : List Definition} {registry : Registry}
    (h : Collects definitions registry) {definition : Definition} (hDeclared : definition.Declared)
    (hEarlier : ∀ earlier ∈ definitions, earlier.Declared) {user : UserMacro}
    (hUser : registry.userMacro? definition.spelling = none ∧ user = .ofDefinition definition ∨
      ∃ old, registry.userMacro? definition.spelling = some old ∧
        old.signature = definition.signature ∧
        old.bodies.get? definition.body.language = none ∧
        user = { old with bodies := old.bodies.insert definition.body }) :
    Binds (definition :: definitions) definition.spelling user.bodies ∧
      user.kind = definition.kind ∧ user.name = definition.name ∧
        user.signature = definition.signature := by
  rcases hUser with ⟨hNone, rfl⟩ | ⟨old, hOld, hSignature, hFree, rfl⟩
  · rcases h.userMacro? definition.spelling with ⟨hFirst, -⟩ | ⟨user, hSome, -⟩
    · have hEmpty : Binds definitions definition.spelling {} := by
        intro language body
        constructor
        · cases language <;> exact fun hBody => nomatch hBody
        · rintro ⟨other, hMem, hSpelling, -⟩
          exact absurd hSpelling (hFirst other hMem)
      exact ⟨hEmpty.insert (by cases definition.body.language <;> rfl), rfl, rfl, rfl⟩
    · cases hSome.symm.trans hNone
  · rcases h.userMacro? definition.spelling with
      ⟨-, hNone⟩ | ⟨user, hSome, hBinds, ⟨first, hMem, hSame⟩, hSettled⟩
    · cases hNone.symm.trans hOld
    · cases hSome.symm.trans hOld
      obtain ⟨hKind, hName, -⟩ := hSettled first hMem hSame
      obtain ⟨hKind', hName'⟩ := ((hEarlier first hMem).spelling_inj hDeclared).mp hSame
      exact ⟨hBinds.insert hFree, hKind.trans hKind', hName.trans hName', hSignature⟩

/-- A merged definition is collected on top of the earlier ones. -/
theorem Collects.define {definitions : List Definition} {registry registry' : Registry}
    (h : Collects definitions registry) {definition : Definition} (hDeclared : definition.Declared)
    (hEarlier : ∀ earlier ∈ definitions, earlier.Declared)
    (hDefine : registry.define definition = .ok registry') :
    Collects (definition :: definitions) registry' := by
  have hCompatible := (h.define_ok_iff hDeclared hEarlier).mp ⟨registry', hDefine⟩
  obtain ⟨user, rfl, hUser⟩ := Registry.define_ok hDefine
  rw [← Definition.spelling] at hUser ⊢
  obtain ⟨hBinds, hKind, hName, hSignature⟩ := h.merged hDeclared hEarlier hUser
  refine ⟨h.wellFormed.register _ _, fun other hMem => ?_, fun key hOther => ?_⟩
  · rw [h.wellFormed.bound_register]
    by_cases hSame : other.spelling.toList = definition.spelling.toList
    · refine ⟨user.bodies, fun language body => hSame ▸ hBinds language body, ?_⟩
      rw [if_pos hSame]
      rcases List.mem_cons.mp hMem with rfl | hMem
      · rw [← hKind, ← hName, ← hSignature]
      · obtain ⟨hKind', hName'⟩ := ((hEarlier other hMem).spelling_inj hDeclared).mp hSame
        rw [hKind', hName', (hCompatible other hMem hKind' hName').1, ← hKind, ← hName,
          ← hSignature]
    · obtain rfl | hMem := List.mem_cons.mp hMem
      · exact absurd rfl hSame
      · obtain ⟨bodies, hBodies, hBound⟩ := h.defined other hMem
        exact ⟨bodies, hBodies.skip fun hEq => hSame hEq.symm, by rw [if_neg hSame, hBound]⟩
  · rw [h.wellFormed.bound_register, if_neg (hOther definition List.mem_cons_self)]
    exact h.other key fun other hMem => hOther other (List.mem_cons_of_mem _ hMem)

/-- Further definitions are merged into a registry if they are compatible with each other and
with all that it collects. -/
theorem Collects.merge_ok_iff {rest definitions : List Definition}
    (hRest : ∀ definition ∈ rest, definition.Declared) {registry : Registry}
    (h : Collects definitions registry)
    (hEarlier : ∀ earlier ∈ definitions, earlier.Declared) :
    (∃ registry', rest.foldlM Registry.define registry = .ok registry') ↔
      rest.Pairwise Definition.Compatible ∧
        ∀ earlier ∈ definitions, ∀ definition ∈ rest, earlier.Compatible definition := by
  induction rest generalizing definitions registry with
  | nil =>
      exact ⟨fun _ => ⟨.nil, fun _ _ _ hMem => absurd hMem List.not_mem_nil⟩, fun _ => ⟨_, rfl⟩⟩
  | cons definition rest ih =>
      obtain ⟨hDeclared, hRest⟩ := List.forall_mem_cons.mp hRest
      have hEarlier' := List.forall_mem_cons.mpr ⟨hDeclared, hEarlier⟩
      have hFirst := h.define_ok_iff hDeclared hEarlier
      rw [List.pairwise_cons]
      simp only [List.foldlM_cons]
      cases hDefine : registry.define definition with
      | error cause =>
          simp only [hDefine] at hFirst
          constructor
          · rintro ⟨registry', hMerge⟩
            cases hMerge
          · rintro ⟨-, hCompatible⟩
            obtain ⟨registry', hOk⟩ := hFirst.mpr fun earlier hMem =>
              hCompatible earlier hMem definition List.mem_cons_self
            cases hOk
      | ok registry' =>
          have hNow := hFirst.mp ⟨registry', hDefine⟩
          refine (ih hRest (h.define hDeclared hEarlier hDefine) hEarlier').trans ?_
          simp only [List.forall_mem_cons]
          constructor
          · rintro ⟨hPairwise, hCompatible, hOld⟩
            exact ⟨⟨hCompatible, hPairwise⟩,
              fun earlier hMem => ⟨hNow earlier hMem, hOld earlier hMem⟩⟩
          · rintro ⟨⟨hCompatible, hPairwise⟩, hOld⟩
            exact ⟨hPairwise, hCompatible, fun earlier hMem => (hOld earlier hMem).2⟩

/-- What a merged list leaves: its own members on top of what was collected before. -/
theorem Collects.merge {rest definitions : List Definition}
    (hRest : ∀ definition ∈ rest, definition.Declared) {registry registry' : Registry}
    (h : Collects definitions registry)
    (hEarlier : ∀ earlier ∈ definitions, earlier.Declared)
    (hMerge : rest.foldlM Registry.define registry = .ok registry') :
    Collects (rest ++ definitions) registry' := by
  induction rest generalizing definitions registry with
  | nil =>
      cases hMerge
      exact h
  | cons definition rest ih =>
      obtain ⟨hDeclared, hRest⟩ := List.forall_mem_cons.mp hRest
      simp only [List.foldlM_cons] at hMerge
      cases hDefine : registry.define definition with
      | error cause =>
          rw [hDefine] at hMerge
          cases hMerge
      | ok next =>
          rw [hDefine] at hMerge
          refine (ih hRest (h.define hDeclared hEarlier hDefine)
            (List.forall_mem_cons.mpr ⟨hDeclared, hEarlier⟩) hMerge).congr fun other => ?_
          simp only [List.mem_append, List.mem_cons]
          tauto

variable {definitions : List Definition}

/-- A registry into which a list was merged collects it, by induction on the list. -/
theorem collects_of_merged (hDeclared : ∀ definition ∈ definitions, definition.Declared)
    {registry : Registry} (h : definitions.foldlM Registry.define .builtins = .ok registry) :
    Collects definitions registry := by
  have hCollects := Collects.builtins.merge hDeclared (fun _ hMem => absurd hMem List.not_mem_nil) h
  rwa [List.append_nil] at hCollects

/-- A list can be merged if and only if its definitions are compatible in pairs. -/
theorem merged_iff_pairwise (hDeclared : ∀ definition ∈ definitions, definition.Declared) :
    (∃ registry, definitions.foldlM Registry.define .builtins = .ok registry) ↔
      definitions.Pairwise Definition.Compatible := by
  rw [Collects.builtins.merge_ok_iff hDeclared fun _ hMem => absurd hMem List.not_mem_nil]
  exact and_iff_left fun _ hMem => absurd hMem List.not_mem_nil

/-- A list of definitions is merged if and only if its members are pairwise compatible, so
then every order of it is merged, and all orders give registries that find the same. -/
theorem merging_permuted (hDeclared : ∀ definition ∈ definitions, definition.Declared) :
    ((∃ registry, definitions.foldlM Registry.define .builtins = .ok registry) ↔
      definitions.Pairwise Definition.Compatible) ∧
    ∀ (registry : Registry) (permuted : List Definition),
      definitions.foldlM Registry.define .builtins = .ok registry → permuted.Perm definitions →
      ∃ registry', permuted.foldlM Registry.define .builtins = .ok registry' ∧
        ∀ text, registry'.lookup? text = registry.lookup? text := by
  refine ⟨merged_iff_pairwise hDeclared, fun registry permuted hMerged hPerm => ?_⟩
  have hDeclared' : ∀ definition ∈ permuted, definition.Declared :=
    fun definition hMem => hDeclared definition (hPerm.mem_iff.mp hMem)
  have hPairwise : permuted.Pairwise Definition.Compatible :=
    (hPerm.pairwise_iff Definition.Compatible.symm).mpr
      ((merged_iff_pairwise hDeclared).mp ⟨registry, hMerged⟩)
  obtain ⟨registry', hMerged'⟩ := (merged_iff_pairwise hDeclared').mpr hPairwise
  have hCollects := collects_of_merged hDeclared hMerged
  have hCollects' := (collects_of_merged hDeclared' hMerged').congr fun _ => hPerm.mem_iff
  exact ⟨registry', hMerged', hCollects.wellFormed.lookup?_congr hCollects'.wellFormed
    (hCollects.bound_eq hCollects')⟩

/-- Definitions in each other's way: two bodies of one macro, a macro whose spelling starts
like it, and one in place of a builtin. -/
def overlapping : List Definition :=
  [("pair", Language.raw), ("pair", .script), ("pairs", .raw), ("paragraph", .raw)].map
    fun (name, language) =>
      { kind := .command, name, signature := ⟨[true], .normalize, .wrapInParagraph⟩,
        body := { language, params := ["a"], code := "#a" } }

/-- Where the members of `overlapping` are read from. -/
theorem overlapping_declared : ∀ definition ∈ overlapping, definition.Declared := by
  have hRead : overlapping.map Except.ok =
      ["pair: raw(*a)", "pair: script(*a)", "pairs: raw(*a)", "paragraph: raw(*a)"].map
        fun text => (Declaration.parse .command text.toList).map
          (Declaration.define · .command "#a") := by
    decide +kernel
  intro definition hMem
  obtain ⟨text, -, hText⟩ := List.mem_map.mp (hRead ▸ List.mem_map_of_mem hMem)
  cases hParse : Declaration.parse .command text.toList with
  | error cause =>
      rw [hParse] at hText
      cases hText
  | ok declaration =>
      rw [hParse] at hText
      cases hText
      exact ⟨_, declaration, "#a", hParse, rfl⟩

theorem merging_permuted_overlapping :
    (∀ definition ∈ overlapping, definition.Declared) ∧
    ∃ registry registry', overlapping.foldlM Registry.define .builtins = .ok registry ∧
      overlapping.reverse.foldlM Registry.define .builtins = .ok registry' ∧
      ∀ text, registry'.lookup? text = registry.lookup? text := by
  obtain ⟨hMerged, hPermuted⟩ := merging_permuted overlapping_declared
  obtain ⟨registry, hRegistry⟩ := hMerged.mpr (by decide)
  obtain ⟨registry', hRegistry', hSame⟩ :=
    hPermuted registry _ hRegistry (List.reverse_perm overlapping)
  exact ⟨overlapping_declared, registry, registry', hRegistry, hRegistry', hSame⟩

end Registry

end MacroMarkup
