import MacroMarkup.Proofs.Expand.Clear
import MacroMarkup.Proofs.Merging
import MacroMarkup.Proofs.Registry.Match

/-! Libraries that include each other. What libraries define does not clash, however they
include each other, as long as no two of them define the same macro: each is read once, so
each of its definitions is the first of its spelling. -/
namespace MacroMarkup

/-- The first definition of a spelling is registered. -/
theorem Registry.define_of_undefined {registry : Registry} {definition : Definition}
    (h : registry.userMacro? definition.spelling = none) : registry.define definition =
      .ok (registry.register definition.spelling (.user (.ofDefinition definition))) := by
  unfold define
  dsimp only
  rw [show registry.userMacro? (definition.kind.invocation definition.name) = none from h]
  rfl

def MacroKind.directive : MacroKind → String
  | command => Spelling.newCommand
  | environment => Spelling.newEnvironment

/-- The directives that a library is made of. -/
def Spelling.directives : List String :=
  [usePackage, newCommand, newEnvironment]

/-- At this place of a document in this directory. -/
structure ExpandState.At (s : ExpandState) (path : String) (reader : Reader) : Prop where
  path : s.document.path = path
  reader : s.document.reader = reader

namespace Expand

variable {α β : Type} {env : Env} {s s' : ExpandState}

/-- Behind its directive a definition statement is read as this definition, up to that
place. -/
def ReadsAs (kind : MacroKind) (reader reader' : Reader) (definition : Definition) : Prop :=
  ∀ s : ExpandState, s.document.reader = reader → outcome (readDefinition kind) s =
    (.ok definition, s.update fun document => { document with reader := reader' })

/-- A statement with its code on one line is read as its signature and its code say. -/
theorem readsAs_line {kind : MacroKind} {reader : Reader} {signature code after : List Char}
    {declaration : Declaration} (hParse : Declaration.parse kind signature = .ok declaration)
    (hRest : reader.rest = '\x7b' :: (signature ++ '\x7d' :: '\x7b' :: (code ++ '\x7d' :: after)))
    (hSignature : '\x7d' ∉ signature) (hCode : '\x7d' ∉ code) (hLine : '\n' ∉ code) :
    ReadsAs kind reader ((reader.advance (signature.length + 2)).advance (code.length + 2))
      (declaration.define kind (String.ofList code)) := by
  rintro s rfl
  replace hRest : s.rest = '\x7b' :: (signature ++ '\x7d' :: '\x7b' :: (code ++ '\x7d' :: after)) := hRest
  have hBehind : (s.advance (signature.length + 2)).rest = '\x7b' :: (code ++ '\x7d' :: after) := by
    have hScope : s.rest = '\x7b' :: (signature ++ ['\x7d']) ++ '\x7b' :: (code ++ '\x7d' :: after) := by
      rw [hRest]
      simp
    rw [s.rest_advance, hScope]
    simp
  have hBody : ∀ indent, outcome (definitionBody indent) (s.advance (signature.length + 2)) =
      (.ok (String.ofList code), (s.advance (signature.length + 2)).advance (code.length + 2)) := by
    intro indent
    have hInner : ((s.advance (signature.length + 2)).advance 1).rest = code ++ '\x7d' :: after :=
      (s.advance (signature.length + 2)).rest_advance_one hBehind
    have hBreak : ['\n'].isPrefixOf (code ++ '\x7d' :: after) = false := by
      cases code with
      | nil => rfl
      | cons c code =>
          have hFirst : '\n' ≠ c := fun hSame => hLine (hSame ▸ List.mem_cons_self)
          simp [List.isPrefixOf, hFirst]
    have hFound : Text.before? Spelling.scopeEnd.toList (code ++ '\x7d' :: after) = some code :=
      Text.before?_single_of_not_mem hCode after
    unfold definitionBody inlineBody
    rw [outcome_bind_of_ok (outcome_expectScopeBegin hBehind), outcome_bind_of_ok (outcome_rest _),
      hInner]
    dsimp only
    rw [if_neg (by simp [hBreak]), outcome_bind, outcome_readPast, hInner, hFound]
    dsimp only
    rw [String.toList_ofList, if_neg (by simpa using hLine), ExpandState.advance_advance]
    congr 2
    rw [show Spelling.scopeEnd.length = 1 by decide]
    omega
  unfold readDefinition
  rw [outcome_bind_of_ok (outcome_document s), outcome_bind_of_ok (outcome_verbatimScope hRest hSignature),
    outcome_bind, outcome_located, String.toList_ofList, hParse]
  dsimp only
  rw [outcome_bind_of_ok (hBody _)]
  rfl

/-- The libraries that a text includes and the definitions that it makes, each in their order.
The text consists of definition statements, inclusions, comments and blanks. -/
inductive Lists : Reader → List String → List Definition → Prop where
  | done {reader : Reader} : reader.rest = [] → Lists reader [] []
  | blank {reader : Reader} {c : Char} {text : List Char} {names : List String}
      {definitions : List Definition} :
      reader.rest = c :: text → c = ' ' ∨ c = '\n' →
      Lists (reader.advance 1) names definitions → Lists reader names definitions
  | comment {reader : Reader} {text : List Char} {names : List String}
      {definitions : List Definition} :
      reader.rest = '%' :: text →
      Lists ((reader.advance 1).advance (text.takeWhile (· ≠ '\n')).length) names definitions →
      Lists reader names definitions
  | inclusion {reader : Reader} {name after : List Char} {names : List String}
      {definitions : List Definition} :
      reader.rest = Spelling.usePackage.toList ++ '\x7b' :: (name ++ '\x7d' :: after) →
      '\x7d' ∉ name →
      Lists ((reader.advance Spelling.usePackage.toList.length).advance (name.length + 2))
        names definitions →
      Lists reader (Text.trimString (String.ofList name) :: names) definitions
  | statement {reader reader' : Reader} {kind : MacroKind} {after : List Char}
      {definition : Definition} {names : List String} {definitions : List Definition} :
      reader.rest = kind.directive.toList ++ '\x7b' :: after →
      ReadsAs kind (reader.advance kind.directive.toList.length) reader' definition →
      Lists reader' names definitions → Lists reader names (definition :: definitions)

/-- A statement with its code on one line, which says what the definition is. -/
theorem Lists.line {kind : MacroKind} {reader : Reader} {signature code after : List Char}
    {declaration : Declaration} {names : List String} {definitions : List Definition}
    (hRest : reader.rest = kind.directive.toList ++
      '\x7b' :: (signature ++ '\x7d' :: '\x7b' :: (code ++ '\x7d' :: after)))
    (hParse : Declaration.parse kind signature = .ok declaration)
    (hSignature : '\x7d' ∉ signature) (hCode : '\x7d' ∉ code) (hLine : '\n' ∉ code)
    (hNext : Lists (((reader.advance kind.directive.toList.length).advance (signature.length + 2)).advance
      (code.length + 2)) names definitions) :
    Lists reader names (declaration.define kind (String.ofList code) :: definitions) := by
  have hScope : (reader.advance kind.directive.toList.length).rest =
      '\x7b' :: (signature ++ '\x7d' :: '\x7b' :: (code ++ '\x7d' :: after)) := by
    rw [Reader.rest_advance, hRest, List.drop_left]
  exact .statement hRest (readsAs_line hParse hScope hSignature hCode hLine) hNext

end Expand

/-- The library that a name leads to from a directory is of this kind, if there is one. -/
def Env.LeadsTo (env : Env) (library : String → List String → Prop) (path name : String) : Prop :=
  ∀ path' location, Library.resolve? env.files env.options (baseDirectory path) name =
    some (path', location) → library path' location

/-- Libraries that include only each other, on cycles or not. Each is such a text as far as it
can be read. No spelling is defined twice in one of them or in two, and none is that of a
directive. -/
structure Env.DistinctLibraries (env : Env) (library : String → List String → Prop)
    (declared : List String → List Definition) : Prop where
  listed : ∀ {path text body : String} {location : List String} {headers : Yaml.Headers},
    library path location → env.files.readText path = .ok text →
    FrontMatter.extract (Source.ofFile path text) = .ok (headers, body) →
    ∃ names, Expand.Lists (Reader.ofText body) names (declared location) ∧
      ∀ name ∈ names, env.LeadsTo library (Source.ofFile path text).path name
  distinct : ∀ location, ((declared location).map Definition.spelling).Nodup
  apart : ∀ location location', location ≠ location' → ∀ definition ∈ declared location,
    ∀ other ∈ declared location', definition.spelling ≠ other.spelling
  directive : ∀ location, ∀ definition ∈ declared location,
    definition.spelling ∉ Spelling.directives

namespace Session

variable {declared : List String → List Definition} {own : List Definition} {σ σ' σ'' : Session}

/-- The directives do what they do from the start, and no macro of a library that has not been
read is defined. -/
structure Awaiting (declared : List String → List Definition) (σ : Session) : Prop where
  built : σ.registry.Built
  directive : ∀ spelling ∈ Spelling.directives, σ.registry.userMacro? spelling = none
  unread : ∀ location, location ∉ σ.loaded → ∀ definition ∈ declared location,
    σ.registry.userMacro? definition.spelling = none

/-- What a text is still to define: macros that neither are defined yet nor belong to a
library that has not been read. -/
structure Pending (declared : List String → List Definition) (own : List Definition) (σ : Session) :
    Prop where
  distinct : (own.map Definition.spelling).Nodup
  undefined : ∀ definition ∈ own, σ.registry.userMacro? definition.spelling = none
  apart : ∀ definition ∈ own, ∀ location, location ∉ σ.loaded → ∀ other ∈ declared location,
    definition.spelling ≠ other.spelling
  directive : ∀ definition ∈ own, definition.spelling ∉ Spelling.directives

/-- A later session, in which there are at most these macros more, and those of the libraries
that have been read meanwhile. -/
structure Adds (declared : List String → List Definition) (own : List Definition) (σ σ' : Session) :
    Prop where
  built : σ'.registry.Built
  loaded : ∀ location ∈ σ.loaded, location ∈ σ'.loaded
  origin : ∀ spelling, σ.registry.userMacro? spelling = none →
    σ'.registry.userMacro? spelling ≠ none →
    (∃ definition ∈ own, spelling = definition.spelling) ∨
    ∃ location ∈ σ'.loaded, location ∉ σ.loaded ∧
      ∃ definition ∈ declared location, spelling = definition.spelling

/-- At the start nothing is defined. -/
theorem Awaiting.start (declared : List String → List Definition) :
    (Session.ofRegistry Registry.builtins).Awaiting declared where
  built := .builtins
  directive spelling _ := Registry.userMacro?_builtins spelling
  unread _ _ definition _ := Registry.userMacro?_builtins definition.spelling

theorem Adds.refl (hBuilt : σ.registry.Built) : Adds declared [] σ σ :=
  ⟨hBuilt, fun _ h => h, fun _ hNone hSome => absurd hNone hSome⟩

theorem Adds.trans {own' : List Definition} (h : Adds declared own σ σ')
    (h' : Adds declared own' σ' σ'') : Adds declared (own ++ own') σ σ'' where
  built := h'.built
  loaded location hMem := h'.loaded location (h.loaded location hMem)
  origin spelling hNone hSome := by
    by_cases hMiddle : σ'.registry.userMacro? spelling = none
    · rcases h'.origin spelling hMiddle hSome with
        ⟨definition, hOwn, hSame⟩ | ⟨location, hRead, hNew, hDeclared⟩
      · exact .inl ⟨definition, List.mem_append_right own hOwn, hSame⟩
      · exact .inr ⟨location, hRead, fun hOld => hNew (h.loaded location hOld), hDeclared⟩
    · rcases h.origin spelling hNone hMiddle with
        ⟨definition, hOwn, hSame⟩ | ⟨location, hRead, hNew, hDeclared⟩
      · exact .inl ⟨definition, List.mem_append_left own' hOwn, hSame⟩
      · exact .inr ⟨location, h'.loaded location hRead, hNew, hDeclared⟩

/-- Macros of a text that is no unread library, and of libraries that are read now, leave those
of the other libraries undefined. -/
theorem Awaiting.adds (h : σ.Awaiting declared) {env : Env}
    {library : String → List String → Prop} (hDistinct : env.DistinctLibraries library declared)
    (hOwn : σ.Pending declared own) (hAdds : Adds declared own σ σ') : σ'.Awaiting declared where
  built := hAdds.built
  directive spelling hMem := by
    by_contra hSome
    rcases hAdds.origin spelling (h.directive spelling hMem) hSome with
      ⟨definition, hDefinition, rfl⟩ | ⟨location, -, -, definition, hDefinition, rfl⟩
    · exact hOwn.directive definition hDefinition hMem
    · exact hDistinct.directive location definition hDefinition hMem
  unread location hLocation definition hDefinition := by
    have hBefore : location ∉ σ.loaded := fun hMem => hLocation (hAdds.loaded location hMem)
    by_contra hSome
    rcases hAdds.origin _ (h.unread location hBefore definition hDefinition) hSome with
      ⟨other, hOther, hSame⟩ | ⟨location', hRead, -, other, hOther, hSame⟩
    · exact hOwn.apart other hOther location hBefore definition hDefinition hSame.symm
    · have hElsewhere : location ≠ location' := by
        rintro rfl
        exact hLocation hRead
      exact hDistinct.apart location location' hElsewhere definition hDefinition other hOther hSame

/-- The libraries that a text includes define nothing that it is still to define. -/
theorem Pending.adds (h : σ.Pending declared own) (hAdds : Adds declared [] σ σ') :
    σ'.Pending declared own where
  distinct := h.distinct
  undefined definition hDefinition := by
    by_contra hSome
    rcases hAdds.origin _ (h.undefined definition hDefinition) hSome with
      ⟨other, hOther, -⟩ | ⟨location, -, hNew, other, hOther, hSame⟩
    · cases hOther
    · exact h.apart definition hDefinition location hNew other hOther hSame
  apart definition hDefinition location hLocation :=
    h.apart definition hDefinition location fun hMem => hLocation (hAdds.loaded location hMem)
  directive := h.directive

/-- The first of the definitions alone. -/
theorem Pending.head {definition : Definition} (h : σ.Pending declared (definition :: own)) :
    σ.Pending declared [definition] where
  distinct := List.nodup_singleton _
  undefined other hMem := h.undefined other (List.mem_cons.mpr (.inl (List.mem_singleton.mp hMem)))
  apart other hMem := h.apart other (List.mem_cons.mpr (.inl (List.mem_singleton.mp hMem)))
  directive other hMem := h.directive other (List.mem_cons.mpr (.inl (List.mem_singleton.mp hMem)))

theorem Pending.nil : σ.Pending declared [] where
  distinct := .nil
  undefined _ h := nomatch h
  apart _ h := nomatch h
  directive _ h := nomatch h

/-- A definition of its own is the first of its spelling, and is merged. -/
theorem Pending.define {definition : Definition} {own : List Definition}
    (h : σ.Pending declared (definition :: own)) {registry : Registry}
    (hDefine : σ.registry.define definition = .ok registry) (hBuilt : registry.Built)
    (hWellFormed : σ.registry.WellFormed) :
    Adds declared [definition] σ { σ with registry } ∧
      ({ σ with registry } : Session).Pending declared own := by
  obtain ⟨user, rfl, -⟩ := Registry.define_ok hDefine
  have hOther : ∀ spelling, spelling ≠ definition.spelling →
      (σ.registry.register definition.spelling (.user user)).userMacro? spelling =
        σ.registry.userMacro? spelling := by
    intro spelling hNe
    unfold Registry.userMacro?
    rw [Registry.get?_eq_bound, Registry.get?_eq_bound, hWellFormed.bound_register,
      if_neg fun hSame => hNe (String.toList_inj.mp hSame)]
  obtain ⟨hNew, hDistinct⟩ := List.nodup_cons.mp h.distinct
  refine ⟨⟨hBuilt, fun _ hMem => hMem, fun spelling hNone hSome => .inl ?_⟩, hDistinct,
    fun other hMem => ?_, fun other hMem => h.apart other (List.mem_cons_of_mem _ hMem),
    fun other hMem => h.directive other (List.mem_cons_of_mem _ hMem)⟩
  · refine ⟨definition, List.mem_singleton_self _, ?_⟩
    by_contra hNe
    exact hSome ((hOther spelling hNe).trans hNone)
  · have hNe : other.spelling ≠ definition.spelling := fun hSame =>
      hNew (hSame ▸ List.mem_map_of_mem hMem)
    exact (hOther _ hNe).trans (h.undefined other (List.mem_cons_of_mem _ hMem))

end Session

namespace Expand

variable {env : Env} {library : String → List String → Prop}
  {declared : List String → List Definition} {names : List String} {own : List Definition}
  {s s' : ExpandState}

/-- A definition statement reads a declaration and some code. -/
theorem readDefinition_ok {kind : MacroKind} {definition : Definition}
    (h : outcome (readDefinition kind) s = (.ok definition, s')) :
    ∃ text declaration code, Declaration.parse kind text = .ok declaration ∧
      definition = declaration.define kind code := by
  unfold readDefinition at h
  rw [outcome_bind_of_ok (outcome_document s)] at h
  obtain ⟨signature, first, -, h⟩ := outcome_bind_ok h
  rw [outcome_bind, outcome_located] at h
  generalize hParse : Declaration.parse kind signature.toList = parsed at h
  cases parsed with
  | error cause => cases h
  | ok declaration =>
      obtain ⟨code, last, -, h⟩ := outcome_bind_ok h
      cases h
      exact ⟨_, declaration, code, hParse, rfl⟩

/-- A macro that is not defined yet is defined without a clash. -/
theorem clear_define {kind : MacroKind} {reader' : Reader} {definition : Definition}
    (hRead : ReadsAs kind s.document.reader reader' definition) (hBuilt : s.session.registry.Built)
    (hPending : s.session.Pending declared (definition :: own)) :
    Clear (define kind) s fun _ s' => s'.At s.document.path reader' ∧
      Session.Adds declared [definition] s.session s'.session ∧ s'.session.Pending declared own := by
  have hDefinition := hRead s rfl
  obtain ⟨text, declaration, code, hParse, rfl⟩ := readDefinition_ok hDefinition
  have hDefine := Registry.define_of_undefined (hPending.undefined _ List.mem_cons_self)
  obtain ⟨hAdds, hRest⟩ := hPending.define hDefine (hBuilt.define hParse hDefine) hBuilt.wellFormed
  have hMerge := outcome_merge (declaration.define kind code)
    (s.update fun document => { document with reader := reader' })
  rw [show (s.update _).session = s.session from rfl, hDefine] at hMerge
  rw [define_eq_merge]
  exact Clear.step hDefinition (.of_ok hMerge ⟨⟨rfl, rfl⟩, hAdds, hRest⟩)

/-- Reads texts of definitions and inclusions to their ends without a clash, as long as what
they define is their own. -/
structure ClearReader (env : Env) (library : String → List String → Prop)
    (declared : List String → List Definition) (block : BlockReader) : Prop where
  document {s : ExpandState} {names : List String} {own : List Definition} :
    Lists s.document.reader names own →
    (∀ name ∈ names, env.LeadsTo library s.document.path name) →
    s.session.Awaiting declared → s.session.Pending declared own →
    Clear (block none) s fun _ s' => Session.Adds declared own s.session s'.session

section Include

variable {block : BlockReader} (hDistinct : env.DistinctLibraries library declared)
  (hBlock : ClearReader env library declared block)
include hDistinct hBlock

/-- A library is read without a clash, if its text is. That is read in the session in which
the library is marked, and what it defines counts as read from then on. -/
theorem clear_readLibrary {σ : Session} {path : String} {location : List String}
    (hLibrary : library path location) (hAwaiting : σ.Awaiting declared) (hUnread : location ∉ σ.loaded)
    (hMarked : s.session = { σ with loaded := location :: σ.loaded }) :
    Clear (readLibrary env block path) s fun _ s' =>
      s'.document = s.document ∧ Session.Adds declared [] σ s'.session := by
  have hStart : s.session.Awaiting declared := by
    rw [hMarked]
    exact ⟨hAwaiting.built, hAwaiting.directive, fun other hOther =>
      hAwaiting.unread other fun hMem => hOther (List.mem_cons_of_mem location hMem)⟩
  have hOwn : s.session.Pending declared (declared location) := by
    rw [hMarked]
    refine ⟨hDistinct.distinct location, hAwaiting.unread location hUnread,
      fun definition hDefinition other hOther => ?_, hDistinct.directive location⟩
    have hElsewhere : location ≠ other := by
      rintro rfl
      exact hOther List.mem_cons_self
    exact hDistinct.apart location other hElsewhere definition hDefinition
  have hCounts : ∀ {σ' : Session}, Session.Adds declared (declared location) s.session σ' →
      Session.Adds declared [] σ σ' := by
    intro σ' hAdds
    rw [hMarked] at hAdds
    refine ⟨hAdds.built, fun other hMem => hAdds.loaded other (List.mem_cons_of_mem location hMem),
      fun spelling hNone hSome => .inr ?_⟩
    rcases hAdds.origin spelling hNone hSome with hOwn | ⟨other, hRead, hOther, hDeclared⟩
    · exact ⟨location, hAdds.loaded location List.mem_cons_self, hUnread, hOwn⟩
    · exact ⟨other, hRead, fun hMem => hOther (List.mem_cons_of_mem location hMem), hDeclared⟩
  unfold readLibrary
  split
  · exact .of_error rfl fun hClash => hClash.elim nofun nofun
  · rename_i text hText
    dsimp only
    split
    · rename_i error hRefused
      exact .of_error rfl (FrontMatter.not_clash_of_extract hRefused)
    · rename_i headers body hExtract
      obtain ⟨names, hLists, hNames⟩ := hDistinct.listed hLibrary hText hExtract
      have hRun : ∀ library : DocumentState, library.reader = Reader.ofText body →
          library.path = (Source.ofFile path text).path →
          Clear (onDocument library (wholeDocument block)) s fun _ s' =>
            s'.document = s.document ∧ Session.Adds declared [] σ s'.session := by
        intro library hReader hPath
        have hBody := hBlock.document (s := s.withDocument library) (hReader ▸ hLists)
          (hPath ▸ hNames) hStart hOwn
        exact Clear.onDocument (Clear.wholeDocument
          (hBody.mono fun _ s' hAdds => ⟨rfl, hCounts hAdds⟩))
      exact Clear.step (outcome_document s) (Clear.discard (hRun _ rfl rfl))

/-- So is one that is included, and nothing is read where it has been before. -/
theorem clear_includeLibrary (hAwaiting : s.session.Awaiting declared) {name : String}
    (hLibrary : env.LeadsTo library s.document.path name) :
    Clear (includeLibrary env block name) s fun _ s' => s'.document = s.document ∧
      Session.Adds declared [] s.session s'.session := by
  unfold includeLibrary
  refine Clear.step (outcome_document s) ?_
  dsimp only
  split
  · exact .of_error rfl fun hClash => hClash.elim nofun nofun
  · rename_i path location hFound
    have hMark := outcome_markLoaded location s
    split at hMark
    · exact Clear.step hMark (.of_ok rfl ⟨rfl, .refl hAwaiting.built⟩)
    · rename_i hNew
      refine Clear.step hMark ?_
      rw [if_pos rfl]
      exact clear_readLibrary hDistinct hBlock (hLibrary path location hFound) hAwaiting
        (by simpa using hNew) rfl

end Include

section Place

variable {block : BlockReader} {rounds : Nat}

/-- A blank only goes to the engine. -/
theorem clear_place_blank {c : Char} {text : List Char} (hRest : s.rest = c :: text)
    (hBlank : c = ' ' ∨ c = '\n') (hBuilt : s.session.registry.Built) :
    Clear (place env block rounds) s fun _ s' =>
      s'.At s.document.path (s.document.reader.advance 1) ∧
      Session.Adds declared [] s.session s'.session := by
  have hPlace := outcome_place env block rounds hRest
  rw [hBuilt.lookup?_blank hBlank] at hPlace
  exact .of_ok (hPlace.trans (outcome_literal c s)) ⟨⟨rfl, rfl⟩, .refl hBuilt⟩

/-- A comment is read to the end of its row. -/
theorem clear_place_comment {text : List Char} (hRest : s.rest = '%' :: text)
    (hBuilt : s.session.registry.Built) :
    Clear (place env block rounds) s fun _ s' =>
      s'.At s.document.path
        ((s.document.reader.advance 1).advance (text.takeWhile (· ≠ '\n')).length) ∧
      Session.Adds declared [] s.session s'.session := by
  have hFound := hBuilt.lookup?_comment text
  rw [← hRest] at hFound
  have hMark : s.rest = ['%'] ++ text := hRest
  have hBehind : (s.entered 1).rest = text := ExpandState.rest_entered hMark
  refine Clear.place (by simp [hRest]) hFound fun invocation => ?_
  have hComment : outcome (runHandler env block rounds (.builtin .comment) invocation) (s.entered 1) =
      (.ok (.fired ""), (s.entered 1).advance (text.takeWhile (· ≠ '\n')).length) := by
    change outcome comment (s.entered 1) = _
    unfold comment
    rw [outcome_bind_of_ok (outcome_rest _), hBehind]
    rfl
  exact .of_ok hComment ⟨⟨rfl, rfl⟩, .refl hBuilt⟩

/-- An inclusion leaves the text behind it to be read in the session that the library leaves. -/
theorem clear_place_inclusion (hDistinct : env.DistinctLibraries library declared)
    (hBlock : ClearReader env library declared block) {name after : List Char}
    (hRest : s.rest = Spelling.usePackage.toList ++ '\x7b' :: (name ++ '\x7d' :: after))
    (hName : '\x7d' ∉ name) (hAwaiting : s.session.Awaiting declared)
    (hLibrary : env.LeadsTo library s.document.path (Text.trimString (String.ofList name))) :
    Clear (place env block rounds) s fun _ s' =>
      s'.At s.document.path ((s.document.reader.advance Spelling.usePackage.toList.length).advance
        (name.length + 2)) ∧ Session.Adds declared [] s.session s'.session := by
  have hFree := hAwaiting.directive Spelling.usePackage (by decide)
  have hFound := hAwaiting.built.lookup?_usePackage hFree (name ++ '\x7d' :: after)
  rw [← hRest] at hFound
  refine Clear.place (by simp [hRest]) hFound fun invocation => ?_
  have hScope := outcome_verbatimScope (ExpandState.rest_entered hRest) hName
  have hInclude := clear_includeLibrary hDistinct hBlock
    (s := (s.entered Spelling.usePackage.toList.length).advance (name.length + 2)) hAwaiting hLibrary
  refine Clear.step hScope (hInclude.bind fun _ s' ⟨hDocument, hAdds⟩ => ?_)
  refine .of_ok rfl ⟨⟨?_, ?_⟩, hAdds⟩
  · change s'.document.path = _
    rw [hDocument]
    rfl
  · change s'.document.reader = _
    rw [hDocument]
    rfl

/-- A directive is found where its scope follows. -/
theorem lookup?_statement (env : Env) (block : BlockReader) (rounds : Nat)
    (hAwaiting : s.session.Awaiting declared) (kind : MacroKind) (text : List Char) :
    ∃ builtin, (∀ invocation, runHandler env block rounds (.builtin builtin) invocation =
        define kind >>= fun _ => pure (.fired "")) ∧
      s.session.registry.lookup? (kind.directive.toList ++ '\x7b' :: text) =
        some (kind.directive.toList.length, .builtin builtin) := by
  cases kind with
  | command =>
      refine ⟨.newCommand, fun _ => rfl, hAwaiting.built.lookup?_directive (by decide)
        (show _ = '\\' :: "newcommand".toList by decide) (by decide) (by decide) (by decide) ?_ text⟩
      exact hAwaiting.directive _ (by decide)
  | environment =>
      refine ⟨.newEnvironment, fun _ => rfl, hAwaiting.built.lookup?_directive (by decide)
        (show _ = '\\' :: "newenvironment".toList by decide) (by decide) (by decide) (by decide) ?_ text⟩
      exact hAwaiting.directive _ (by decide)

/-- A definition statement defines its macro, which is the first of its spelling. -/
theorem clear_place_statement {kind : MacroKind} {after : List Char} {reader' : Reader}
    {definition : Definition} (hRest : s.rest = kind.directive.toList ++ '\x7b' :: after)
    (hRead : ReadsAs kind (s.document.reader.advance kind.directive.toList.length) reader' definition)
    (hAwaiting : s.session.Awaiting declared)
    (hPending : s.session.Pending declared (definition :: own)) :
    Clear (place env block rounds) s fun _ s' => s'.At s.document.path reader' ∧
      Session.Adds declared [definition] s.session s'.session ∧ s'.session.Pending declared own := by
  obtain ⟨builtin, hHandler, hFound⟩ := lookup?_statement env block rounds hAwaiting kind after
  rw [← hRest] at hFound
  refine Clear.place (by simp [hRest]) hFound fun invocation => ?_
  rw [hHandler]
  refine Clear.bind (clear_define (s := s.entered _) hRead hAwaiting.built hPending) ?_
  rintro _ s' ⟨hAt, hPost⟩
  exact .of_ok rfl ⟨⟨hAt.path, hAt.reader⟩, hPost⟩

end Place

/-- What a text of definitions and inclusions does, as long as its definitions are its own and
the first of their spellings: it ends in no clash, and only adds them and what the libraries
hold that it includes. The induction is on the fuel, with one place of the text in each step. -/
theorem clear_block (hDistinct : env.DistinctLibraries library declared) {fuel : Nat}
    {output : String} (hLists : Lists s.document.reader names own)
    (hNames : ∀ name ∈ names, env.LeadsTo library s.document.path name)
    (hAwaiting : s.session.Awaiting declared) (hPending : s.session.Pending declared own) :
    Clear (block env fuel none output) s fun _ s' =>
      Session.Adds declared own s.session s'.session := by
  induction fuel generalizing s names own output with
  | zero => exact .of_error rfl id
  | succ fuel ih =>
      have hBlock : ClearReader env library declared (blockReader env fuel) :=
        ⟨fun hLists hNames hAwaiting hPending => ih hLists hNames hAwaiting hPending⟩
      -- Behind a place that defines nothing the same is left to define.
      have hBehind : ∀ {reader : Reader} {names : List String} {output' : String} {s' : ExpandState},
          Lists reader names own → (∀ name ∈ names, env.LeadsTo library s.document.path name) →
          s'.At s.document.path reader → Session.Adds declared [] s.session s'.session →
          Clear (block env fuel none output') s' fun _ s'' =>
            Session.Adds declared own s.session s''.session := by
        rintro reader names output' s' hNext hNames ⟨hPath, rfl⟩ hAdds
        exact (ih hNext (hPath ▸ hNames) (hAwaiting.adds hDistinct .nil hAdds)
          (hPending.adds hAdds)).mono fun _ _ hLater => hAdds.trans hLater
      cases hLists with
      | done hRest => exact .of_ok (outcome_block_atEnd env fuel output hRest) (.refl hAwaiting.built)
      | blank hRest hBlank hNext =>
          have hSome : s.rest ≠ [] := by simp [hRest]
          exact Clear.block hSome (clear_place_blank hRest hBlank hAwaiting.built)
            fun s' output ⟨hAt, hAdds⟩ => hBehind hNext hNames hAt hAdds
      | comment hRest hNext =>
          have hSome : s.rest ≠ [] := by simp [hRest]
          exact Clear.block hSome (clear_place_comment hRest hAwaiting.built)
            fun s' output ⟨hAt, hAdds⟩ => hBehind hNext hNames hAt hAdds
      | inclusion hRest hName hNext =>
          have hSome : s.rest ≠ [] := by simp [hRest]
          obtain ⟨hFirst, hLater⟩ := List.forall_mem_cons.mp hNames
          exact Clear.block hSome (clear_place_inclusion hDistinct hBlock hRest hName hAwaiting hFirst)
            fun s' output ⟨hAt, hAdds⟩ => hBehind hNext hLater hAt hAdds
      | statement hRest hRead hNext =>
          have hSome : s.rest ≠ [] := by simp [hRest]
          refine Clear.block hSome (clear_place_statement hRest hRead hAwaiting hPending) ?_
          rintro s' output ⟨⟨hPath, rfl⟩, hAdds, hLeft⟩
          exact (ih hNext (hPath ▸ hNames) (hAwaiting.adds hDistinct hPending.head hAdds) hLeft).mono
            fun _ _ hLater => hAdds.trans hLater

theorem clearReader (hDistinct : env.DistinctLibraries library declared) (fuel : Nat) :
    ClearReader env library declared (blockReader env fuel) :=
  ⟨fun hLists hNames hAwaiting hPending => clear_block hDistinct hLists hNames hAwaiting hPending⟩

/-- However libraries with distinct macros include each other, on a cycle or not, including one
of them ends in no clash, and those that have not been read are still as they were. -/
theorem clear_cycle (hDistinct : env.DistinctLibraries library declared) (fuel : Nat)
    (hAwaiting : s.session.Awaiting declared) {name : String}
    (hLibrary : env.LeadsTo library s.document.path name) :
    Clear (includeLibrary env (blockReader env fuel) name) s fun _ s' =>
      s'.session.Awaiting declared :=
  (clear_includeLibrary hDistinct (clearReader hDistinct fuel) hAwaiting hLibrary).mono
    fun _ _ hPost => hAwaiting.adds hDistinct .nil hPost.2

end Expand

end MacroMarkup
