import MacroMarkup.Proofs.Compilation
import MacroMarkup.Proofs.Expand.Growth
import MacroMarkup.Proofs.FrontMatter
import MacroMarkup.Proofs.LibraryCycle

/-! Which files an expansion reads, and how often. A location is marked before its file is
read, so that each library is read once at most, however the documents include each other;
the file of the main document is not marked. -/
namespace MacroMarkup

namespace FileTree

/-- The same files and directories, where only the given locations may hold something else. -/
structure SameBut (changed : List String → Prop) (tree tree' : FileTree) : Prop where
  workingDirectory : tree'.workingDirectory = tree.workingDirectory
  directories : tree'.directories = tree.directories
  locations : tree'.files.map Prod.fst = tree.files.map Prod.fst
  content {location : List String} : ¬ changed location →
    tree'.content? location = tree.content? location

variable {changed : List String → Prop} {tree tree' : FileTree}

/-- A file is there if its location is among those of the tree. -/
theorem isSome_content? (tree : FileTree) (location : List String) :
    (tree.content? location).isSome = (tree.files.map Prod.fst).contains location := by
  unfold content?
  induction tree.files with
  | nil => rfl
  | cons file files ih =>
      obtain ⟨known, content⟩ := file
      rw [List.lookup_cons, List.map_cons, List.contains_cons, ← ih]
      cases location == known <;> rfl

theorem any_isPrefixOf (files : List (List String × ByteArray)) (location : List String) :
    (files.any fun (file, _) => location.isPrefixOf file) =
      (files.map Prod.fst).any location.isPrefixOf := by
  rw [List.any_map]
  rfl

namespace SameBut

variable (h : SameBut changed tree tree')
include h

theorem isSome_content? (location : List String) :
    (tree'.content? location).isSome = (tree.content? location).isSome := by
  rw [FileTree.isSome_content?, FileTree.isSome_content?, h.locations]

theorem isDirectory (location : List String) : tree'.isDirectory location = tree.isDirectory location := by
  have hNone : (tree'.content? location).isNone = (tree.content? location).isNone := by
    rw [← Option.not_isSome, ← Option.not_isSome, h.isSome_content?]
  unfold FileTree.isDirectory
  rw [hNone, h.workingDirectory, h.directories, any_isPrefixOf, any_isPrefixOf, h.locations]

theorem step : tree'.step = tree.step := by
  funext location name
  unfold FileTree.step
  simp only [h.isDirectory, h.isSome_content?]

/-- Paths lead to the same locations. -/
theorem locate (path : String) : tree'.locate path = tree.locate path := by
  unfold FileTree.locate
  rw [h.step, h.workingDirectory]

/-- They lead to files at the same locations. -/
theorem locateFile? (path : String) : tree'.locateFile? path = tree.locateFile? path := by
  unfold FileTree.locateFile?
  rw [h.locate]
  cases tree.locate path with
  | error cause => rfl
  | ok location =>
      dsimp only
      rw [h.isSome_content?]

/-- Names lead to the same libraries. -/
theorem resolve? (options : Options) (base name : String) :
    Library.resolve? tree' options base name = Library.resolve? tree options base name := by
  unfold Library.resolve?
  congr 1
  funext path
  rw [h.locateFile?]

/-- A file that is not changed holds the same text. -/
theorem readText {path : String} {location : List String} (hFound : tree.locateFile? path = some location)
    (hSame : ¬ changed location) : tree'.readText path = tree.readText path := by
  have hLocate : tree.locate path = .ok location := by
    unfold FileTree.locateFile? at hFound
    split at hFound
    · split at hFound
      · cases hFound
        assumption
      · cases hFound
    · cases hFound
  unfold FileTree.readText FileTree.readBytes
  rw [h.locate, hLocate]
  dsimp only [bind, Except.bind]
  rw [h.content hSame]

end SameBut

end FileTree

/-- A library that is found is a file. -/
theorem Library.locateFile?_of_resolve? {tree : FileTree} {options : Options} {base name path : String}
    {location : List String} (h : resolve? tree options base name = some (path, location)) :
    tree.locateFile? path = some location := by
  unfold resolve? at h
  obtain ⟨candidate, -, hCandidate⟩ := List.exists_of_findSome?_eq_some h
  obtain ⟨found, hFound, hPair⟩ := Option.map_eq_some_iff.mp hCandidate
  cases hPair
  exact hFound

def Env.withFiles (env : Env) (files : FileTree) : Env :=
  { env with files }

namespace Expand

/-- Nothing is said once a file has been read that may hold something else. -/
def unlessRead (changed : List String → Prop) (start : Session) : Comparison where
  start
  later σ σ' := σ.loaded <:+ σ'.loaded ∧ (σ.loaded.Nodup → σ'.loaded.Nodup)
  raised _ := True
  excepted _ := False
  beyond σ := ∃ location, changed location ∧ location ∉ start.loaded ∧ location ∈ σ.loaded
  refl σ := ⟨List.suffix_refl _, id⟩
  trans h h' := ⟨h.1.trans h'.1, fun hNodup => h'.2 (h.2 hNodup)⟩
  defining _ _ := ⟨List.suffix_refl _, id⟩
  loading hNew := ⟨List.suffix_cons _ _, fun hNodup => List.nodup_cons.mpr ⟨hNew, hNodup⟩⟩
  native _ := trivial
  relocated _ _ h := h
  lasting h hLater := by
    obtain ⟨location, hChanged, hStart, hLoaded⟩ := h
    exact ⟨location, hChanged, hStart, hLater.1.subset hLoaded⟩

/-- A run is given the same by both trees until it reads what is changed. -/
theorem exchange_withFiles {env : Env} {files : FileTree} {changed : List String → Prop}
    (h : env.files.SameBut changed files) (start : Session) :
    (unlessRead changed start).Exchange env (env.withFiles files) where
  descending s _ := by
    refine ⟨?_, fun _ _ => trivial, .inr rfl⟩
    rw [outcome_descend]
    split <;> exact (unlessRead changed start).refl s.session
  resolving base name := h.resolve? env.options base name
  reading {base name path location σ} hFound hStart hNew := by
    by_cases hChanged : changed location
    · exact .inl ⟨location, hChanged, fun hLoaded => hNew (hStart.1.subset hLoaded), List.mem_cons_self⟩
    · exact .inr (h.readText (Library.locateFile?_of_resolve? hFound) hChanged)
  supports := rfl
  evaluating _ _ _ := ⟨fun _ _ => trivial, .inr rfl⟩
  preload := rfl

/-- A library that was read before is not looked at again, whatever path leads to it. -/
theorem outcome_includeLibrary_loaded {env : Env} {block : BlockReader} {name path : String}
    {location : List String} {s : ExpandState}
    (hFound : Library.resolve? env.files env.options (baseDirectory s.document.path) name =
      some (path, location)) (hLoaded : location ∈ s.session.loaded) :
    outcome (includeLibrary env block name) s = (.ok (), s) := by
  unfold includeLibrary
  rw [outcome_bind_of_ok (outcome_document s)]
  dsimp only
  rw [hFound]
  dsimp only
  have hMark : outcome (markLoaded location) s = (.ok false, s) := by
    rw [outcome_markLoaded, if_pos (by simpa using hLoaded)]
  rw [outcome_bind_of_ok hMark]
  rfl

/-- From any place on, what the changed files hold makes no difference to a run, as far as
they were read before or are not read in it. -/
theorem outcome_block_withFiles {env : Env} {files : FileTree} {changed : List String → Prop}
    (h : env.files.SameBut changed files) (fuel : Nat) (marker? : Option (List Char)) {s : ExpandState}
    (hUnread : ∀ location, changed location → location ∈ s.session.loaded ∨
      location ∉ (outcome (blockReader env fuel marker?) s).2.session.loaded) :
    outcome (blockReader (env.withFiles files) fuel marker?) s =
      outcome (blockReader env fuel marker?) s := by
  have hRuns := Agrees.blockReader (exchange_withFiles h s.session) (.refl fuel) marker? s
    ((unlessRead changed s.session).refl _)
  refine hRuns.same.resolve_left ?_
  rintro (⟨failure, -, hExcepted⟩ | ⟨location, hChanged, hBefore, hAfter⟩)
  · exact hExcepted
  · exact (hUnread location hChanged).elim hBefore (fun hNot => hNot hAfter)

end Expand

namespace Compiler

open Expand

/-- A compilation reads each library at most once. Its log of the files read has no location
twice; once a library is in the log, including it again does nothing, on a cycle or not; and
from any place on, neither what a file of the log holds nor what a file holds that is not
read later has an influence. So the document itself is read once if it is not in the log, and
libraries that define distinct macros do not clash, however they include each other. -/
theorem libraries_read_once (fuel : Nat) (env : Env) :
    (∀ source target, (finalSession fuel env source target).loaded.Nodup) ∧
    (∀ (block : BlockReader) (name path : String) (location : List String) (s : ExpandState),
      Library.resolve? env.files env.options (baseDirectory s.document.path) name =
        some (path, location) →
      location ∈ s.session.loaded → outcome (includeLibrary env block name) s = (.ok (), s)) ∧
    (∀ (files : FileTree) (changed : List String → Prop) (marker? : Option (List Char))
      (s : ExpandState), env.files.SameBut changed files →
      (∀ location, changed location → location ∈ s.session.loaded ∨
        location ∉ (outcome (blockReader env fuel marker?) s).2.session.loaded) →
      outcome (blockReader (env.withFiles files) fuel marker?) s =
        outcome (blockReader env fuel marker?) s) ∧
    (∀ (library : String → List String → Prop) (declared : List String → List Definition)
      (name : String) (s : ExpandState), env.DistinctLibraries library declared →
      s.session.Awaiting declared → env.LeadsTo library s.document.path name →
      Clear (includeLibrary env (blockReader env fuel) name) s fun _ s' =>
        s'.session.Awaiting declared) ∧
    ∀ (files : FileTree) (changed : List String → Prop) (source : Source) (target : Target),
      env.files.SameBut changed files →
      (∀ location, changed location → location ∉ (finalSession fuel env source target).loaded) →
      compileWith fuel (env.withFiles files) source target =
        compileWith fuel env source target := by
  refine ⟨fun source target => ?_, fun block name path location s => outcome_includeLibrary_loaded,
    fun files changed marker? s h => outcome_block_withFiles h fuel marker?,
    fun library declared name s hDistinct hAwaiting hLeads => clear_cycle hDistinct fuel hAwaiting hLeads,
    fun files changed source target h hUnread => ?_⟩
  · have hSame : env.files.SameBut (fun _ => False) env.files := ⟨rfl, rfl, rfl, fun _ => rfl⟩
    have hEnv := exchange_withFiles hSame (Session.ofRegistry Registry.builtins)
    exact (finalSession_later hEnv rfl source target).2 List.nodup_nil
  · refine compileWith_same (exchange_withFiles h (Session.ofRegistry Registry.builtins))
      (.refl fuel) rfl (fun _ _ hExcepted => hExcepted) ?_
    rintro ⟨location, hChanged, -, hLoaded⟩
    exact hUnread location hChanged hLoaded

def selfIncluding : String :=
  "\\usepackage\x7bm\x7d\\newcommand\x7bf:\x7d\x7bF\x7d\\f"

/-- That file, and another one that nothing includes. -/
def selfIncludingFiles (other : String) : FileTree where
  workingDirectory := []
  files := [(["m.ctx"], selfIncluding.toUTF8), (["n.ctx"], other.toUTF8)]
  directories := []

def selfIncludingEnv : Env :=
  plainEnv.withFiles (selfIncludingFiles "")

def including : Source :=
  Source.ofText "\\usepackage\x7bm\x7d\\f"

theorem including_reads :
    document? (compileWith 10 selfIncludingEnv including .normalize) = some "F\n\n" ∧
    (finalSession 10 selfIncludingEnv including .normalize).loaded = [["m.ctx"]] := by
  decide +kernel

theorem sameBut_selfIncludingFiles (other : String) :
    (selfIncludingFiles "").SameBut (· = ["n.ctx"]) (selfIncludingFiles other) where
  workingDirectory := rfl
  directories := rfl
  locations := rfl
  content {location} hSame := by
    unfold FileTree.content? selfIncludingFiles
    have hOther : (location == ["n.ctx"]) = false := by simpa using hSame
    simp only [List.lookup_cons, hOther]

def linking (other name : Char) : String :=
  String.ofList (Spelling.usePackage.toList ++ '\x7b' :: other :: '\x7d' ::
    (Spelling.newCommand.toList ++ ['\x7b', name, ':', '\x7d', '\x7b', 'X', '\x7d']))

/-- Two libraries that include each other, at these paths and locations. -/
def linked (path : String) (location : List String) : Prop :=
  path = "/lib/a.ctx" ∧ location = ["lib", "a.ctx"] ∨
    path = "/lib/b.ctx" ∧ location = ["lib", "b.ctx"]

def linkedFiles : FileTree where
  workingDirectory := []
  files := [(["lib", "a.ctx"], (linking 'b' 'f').toUTF8), (["lib", "b.ctx"], (linking 'a' 'g').toUTF8)]
  directories := []

def linkedEnv : Env :=
  { plainEnv with options := { includePath := ["/lib"] }, files := linkedFiles }

/-- The macro that a library defines, by its name. -/
def linkedMacro (name : Char) : Definition :=
  Declaration.define ⟨String.ofList [name], .raw, [], .normalize, .wrapInParagraph⟩ .command "X"

def linkedMacros (location : List String) : List Definition :=
  if location = ["lib", "a.ctx"] then [linkedMacro 'f']
  else if location = ["lib", "b.ctx"] then [linkedMacro 'g'] else []

/-- What such a library includes and defines. -/
theorem lists_linking {other name : Char} (hOther : other ≠ '\x7d') (hName : name ≠ '\x7d')
    {declaration : Declaration} (hParse : Declaration.parse .command [name, ':'] = .ok declaration) :
    Lists (Reader.ofText (linking other name)) [Text.trimString (String.ofList [other])]
      [declaration.define .command "X"] := by
  have hRest : (Reader.ofText (linking other name)).rest = Spelling.usePackage.toList ++
      '\x7b' :: ([other] ++ '\x7d' :: (MacroKind.command.directive.toList ++
        '\x7b' :: ([name, ':'] ++ '\x7d' :: '\x7b' :: (['X'] ++ '\x7d' :: [])))) := by
    simp [Reader.ofText, linking, MacroKind.directive]
  have hBehind : (((Reader.ofText (linking other name)).advance Spelling.usePackage.toList.length).advance
      ([other].length + 2)).rest = MacroKind.command.directive.toList ++
        '\x7b' :: ([name, ':'] ++ '\x7d' :: '\x7b' :: (['X'] ++ '\x7d' :: [])) := by
    rw [Reader.rest_advance, Reader.rest_advance, hRest, List.drop_left]
    rfl
  refine .inclusion hRest (by simpa using hOther.symm)
    (.line hBehind hParse (by simpa using hName.symm) (by decide) (by decide) (.done ?_))
  rw [Reader.rest_advance, Reader.rest_advance, Reader.rest_advance, hBehind, List.drop_left]
  rfl

theorem extract_linking (path : String) (other name : Char) :
    FrontMatter.extract (Source.ofFile path (linking other name)) = .ok (∅, linking other name) := by
  have hMark : Spelling.usePackage.toList = '\\' :: "usepackage".toList := by decide
  have hPlain : FrontMatter.parts? (Text.rows (linking other name).toList) = .ok none := by
    rw [linking, String.toList_ofList, hMark, List.cons_append]
    exact FrontMatter.parts?_escape _
  exact FrontMatter.extract_of_parts? hPlain

theorem leadsTo_linked (path : String) {name : String} (h : name = "a" ∨ name = "b") :
    linkedEnv.LeadsTo linked path name := by
  have hDirectories : Library.searchDirectories linkedEnv.options (baseDirectory path) = ["/lib"] := rfl
  have hFound : Library.resolve? linkedEnv.files linkedEnv.options (baseDirectory path) name =
      some ("/lib/" ++ name ++ ".ctx", ["lib", name ++ ".ctx"]) := by
    unfold Library.resolve? Library.candidates
    rw [hDirectories]
    obtain rfl | rfl := h <;> decide +kernel
  intro path' location hOther
  cases hFound.symm.trans hOther
  obtain rfl | rfl := h
  · exact .inl (by decide)
  · exact .inr (by decide)

theorem mem_linkedMacros {location : List String} {definition : Definition}
    (h : definition ∈ linkedMacros location) :
    location = ["lib", "a.ctx"] ∧ definition = linkedMacro 'f' ∨
    location = ["lib", "b.ctx"] ∧ definition = linkedMacro 'g' := by
  unfold linkedMacros at h
  split at h
  · exact .inl ⟨‹_›, List.mem_singleton.mp h⟩
  · split at h
    · exact .inr ⟨‹_›, List.mem_singleton.mp h⟩
    · cases h

/-- The two libraries define macros of different names. -/
theorem linkedEnv_distinct : linkedEnv.DistinctLibraries linked linkedMacros where
  listed := by
    intro path text body location headers hLinked hText hExtract
    obtain ⟨other, name, hRead, hLists, hOther⟩ : ∃ other name,
        (linkedEnv.files.readText path).toOption = some (linking other name) ∧
        Lists (Reader.ofText (linking other name)) [Text.trimString (String.ofList [other])]
          (linkedMacros location) ∧
        (Text.trimString (String.ofList [other]) = "a" ∨
          Text.trimString (String.ofList [other]) = "b") := by
      obtain ⟨rfl, rfl⟩ | ⟨rfl, rfl⟩ := hLinked
      · exact ⟨'b', 'f', by decide +kernel,
          lists_linking (by decide) (by decide) (by decide), by decide⟩
      · exact ⟨'a', 'g', by decide +kernel,
          lists_linking (by decide) (by decide) (by decide), by decide⟩
    rw [hText] at hRead
    cases Option.some.inj hRead
    cases hExtract.symm.trans (extract_linking _ _ _)
    exact ⟨_, hLists, fun _ hName => leadsTo_linked _ (List.mem_singleton.mp hName ▸ hOther)⟩
  distinct location := by
    unfold linkedMacros
    split
    · exact List.nodup_singleton _
    · split
      · exact List.nodup_singleton _
      · exact .nil
  apart := by
    intro location location' hNe definition hDefinition other hOther
    obtain ⟨rfl, rfl⟩ | ⟨rfl, rfl⟩ := mem_linkedMacros hDefinition <;>
      obtain ⟨rfl, rfl⟩ | ⟨rfl, rfl⟩ := mem_linkedMacros hOther
    · exact absurd rfl hNe
    · decide
    · decide
    · exact absurd rfl hNe
  directive := by
    intro location definition hDefinition
    obtain ⟨-, rfl⟩ | ⟨-, rfl⟩ := mem_linkedMacros hDefinition <;> decide

/-- The library is read once, and whatever the other file holds is not read. So are two that
include each other, and what they define does not clash. -/
theorem libraries_read_once_including :
    document? (compileWith 10 selfIncludingEnv including .normalize) = some "F\n\n" ∧
    compileWith 10 (selfIncludingEnv.withFiles (selfIncludingFiles "\\f")) including .normalize =
      compileWith 10 selfIncludingEnv including .normalize ∧
    Clear (includeLibrary linkedEnv (blockReader linkedEnv 10) "a")
      { session := .ofRegistry .builtins, document := .start "<string>" "" "" .normalize }
      fun _ s' => s'.session.Awaiting linkedMacros := by
  refine ⟨including_reads.1, ?_, ?_⟩
  · refine (libraries_read_once 10 selfIncludingEnv).2.2.2.2 _ _ including .normalize
      (sameBut_selfIncludingFiles "\\f") ?_
    rintro location rfl
    rw [including_reads.2]
    decide
  · exact (libraries_read_once 10 linkedEnv).2.2.2.1 linked linkedMacros "a" _ linkedEnv_distinct
      (Session.Awaiting.start linkedMacros) (leadsTo_linked _ (.inl rfl))

/-- Where the file is the document itself, it is read once more as a library, and its
definition conflicts with itself. -/
theorem selfIncluding_conflicts :
    selfIncludingEnv.files.locateFile? "m.ctx" = some ["m.ctx"] ∧
    (selfIncludingEnv.files.readText "m.ctx").toOption = some selfIncluding ∧
    (finalSession 10 selfIncludingEnv (Source.ofFile "m.ctx" selfIncluding) .normalize).loaded =
      [["m.ctx"]] ∧
    failure? (compileWith 10 selfIncludingEnv (Source.ofFile "m.ctx" selfIncluding) .normalize) =
      some (.error ⟨"m.ctx", "", 0, 32, .conflictCode⟩) := by
  decide +kernel

end Compiler

end MacroMarkup
