import MacroMarkup.Proofs.Compilation
import MacroMarkup.Proofs.Expand.Displaced
import MacroMarkup.Proofs.Expand.Growth
import MacroMarkup.Proofs.Registry.Match

/-! Preloading is inclusion. Rows that include libraries, in front of a document, leave
nothing but what the libraries define. -/
namespace MacroMarkup

def Env.withPreload (env : Env) (names : List String) : Env :=
  { env with options := { env.options with preload := names } }

/-- The state behind so many characters and one firing more, in another session. -/
def ExpandState.behindRow (s : ExpandState) (count : Nat) (session : Session) : ExpandState :=
  { session, document := { s.document with
      reader := s.document.reader.advance count, executed := s.document.executed + 1 } }

def Library.inclusion (name : String) : String :=
  Spelling.usePackage ++ Spelling.braced name ++ "\n"

/-- The document behind a row for each of the libraries. -/
def Source.including (names : List String) (source : Source) : Source :=
  { source with text := String.join (names.map Library.inclusion) ++ source.text }

theorem Library.toList_inclusion (name : String) :
    (inclusion name).toList =
      Spelling.usePackage.toList ++ '\x7b' :: (name.toList ++ ['\x7d', '\n']) := by
  unfold inclusion Spelling.braced
  simp [String.toList_append, Spelling.scopeBegin, Spelling.scopeEnd]

/-- Inclusions in front of a document give it no front matter. -/
theorem Source.parts?_including {source : Source}
    (h : FrontMatter.parts? (Text.rows source.text.toList) = .ok none) (names : List String) :
    FrontMatter.parts? (Text.rows (source.including names).text.toList) = .ok none := by
  cases names with
  | nil =>
      unfold including
      rw [List.map_nil, String.join_nil, String.empty_append]
      exact h
  | cons name names =>
      unfold including
      rw [List.map_cons, String.join_cons, String.append_assoc, String.toList_append,
        Library.toList_inclusion]
      exact FrontMatter.parts?_escape _

/-- What is no macro later on was none before. -/
theorem Registry.Extends.free {registry registry' : Registry} (h : registry.Extends registry')
    {spelling : String} (hFree : registry'.userMacro? spelling = none) :
    registry.userMacro? spelling = none := by
  cases hUser : registry.userMacro? spelling with
  | none => rfl
  | some user =>
      obtain ⟨bodies, hLater⟩ := h _ _ (bound_of_userMacro? hUser)
      unfold userMacro? at hFree
      rw [get?_eq_bound, hLater] at hFree
      cases hFree

namespace Expand

variable {env : Env}

/-! What is preloaded is no concern of the evaluation of a document. -/

/-- An inclusion does not look at what is preloaded. -/
theorem includeLibrary_withPreload (env : Env) (names : List String) :
    includeLibrary (env.withPreload names) = includeLibrary env := rfl

theorem runHandler_withPreload (env : Env) (names : List String) :
    runHandler (env.withPreload names) = runHandler env := by
  have hParagraph : paragraph (env.withPreload names) = paragraph env := rfl
  have hInvoke : invoke (env.withPreload names) = invoke env := rfl
  have hBuiltin : runBuiltin (env.withPreload names) = runBuiltin env := by
    unfold runBuiltin
    rw [includeLibrary_withPreload, hParagraph]
  unfold runHandler
  rw [hBuiltin, hInvoke]

theorem blockReader_withPreload (env : Env) (names : List String) :
    blockReader (env.withPreload names) = blockReader env := by
  have hDescend : descend (env.withPreload names) = descend env := rfl
  have hPlace : place (env.withPreload names) = place env := by
    unfold place dispatch
    rw [runHandler_withPreload, hDescend]
  funext fuel marker?
  unfold blockReader
  rw [block_eq_loop, block_eq_loop, hPlace]

theorem expandDocument_withPreload (env : Env) (fuel : Nat) (names : List String) :
    expandDocument (env.withPreload names) fuel = expandDocument env fuel := by
  unfold expandDocument
  rw [blockReader_withPreload]

/-! One row. -/

/-- A library that is read is read so with more fuel. -/
theorem includeLibrary_below (env : Env) {fuel fuel' : Nat} (hFuel : fuel ≤ fuel') (name : String) :
    Below (includeLibrary env (blockReader env fuel) name)
      (includeLibrary env (blockReader env fuel') name) :=
  Below.iff_agrees.mpr
    (.includeLibrary (Below.blocksAgree (blockReader_below env hFuel)) (refueling_exchange env) name)

/-- A directive with a trimmed name includes the library of that name. -/
theorem usePackage_ok {block : BlockReader} {rounds : Nat} {invocation : String}
    {expansion : Expansion} {s t : ExpandState} {name : String} {after : List Char}
    (hRest : s.rest = '\x7b' :: (name.toList ++ '\x7d' :: after)) (hName : '\x7d' ∉ name.toList)
    (hTrim : Text.trim name.toList = name.toList)
    (h : outcome (runHandler env block rounds (.builtin .usePackage) invocation) s =
      (.ok expansion, t)) :
    expansion = .fired "" ∧ outcome (includeLibrary env block name)
      (s.advance (name.toList.length + 2)) = (.ok (), t) := by
  have hTrimmed : Text.trimString (String.ofList name.toList) = name := by
    rw [Text.trimString, String.toList_ofList, hTrim, String.ofList_toList]
  have hSteps : runHandler env block rounds (.builtin .usePackage) invocation =
      verbatimScope >>= fun name => includeLibrary env block (Text.trimString name) >>= fun _ =>
        pure (.fired "") := rfl
  rw [hSteps, outcome_bind_of_ok (outcome_verbatimScope hRest hName), hTrimmed] at h
  obtain ⟨u, middle, hInclude, hPure⟩ := outcome_bind_ok h
  cases hPure
  exact ⟨rfl, hInclude⟩

/-- A line break leaves no trace outside of a paragraph. -/
theorem outcome_place_break {block : BlockReader} {rounds : Nat} {s : ExpandState} {more : List Char}
    (hRest : s.rest = '\n' :: more) (hBuilt : s.session.registry.Built)
    (hClosed : s.engine.opened = false) :
    outcome (place env block rounds) s = (.ok "", s.advance 1) := by
  have hProcess : s.engine.process '\n' = ("", s.engine) := by
    rw [AutoBreak.process_blank (.inr rfl), (AutoBreak.behindBlanks_eq_iff _ _).mpr (.inl hClosed)]
  rw [outcome_place env block rounds hRest, hBuilt.lookup?_blank (.inr rfl)]
  dsimp only
  rw [outcome_literal, hProcess]
  rfl

/-- The directive includes its library and leaves no other trace. The library is included in
the same way at every place that is no deeper. -/
theorem place_usePackage {block : BlockReader} (hBlock : ∀ marker?, Portable (block marker?))
    (hGrown : ∀ marker?, Keeps Grown Grown (block marker?)) {rounds : Nat} {s middle : ExpandState}
    {name piece : String} {after : List Char} (hName : '\x7d' ∉ name.toList)
    (hTrim : Text.trim name.toList = name.toList)
    (hRest : s.rest = Spelling.usePackage.toList ++ '\x7b' :: (name.toList ++ '\x7d' :: after))
    (hBuilt : s.session.registry.Built)
    (hFree : s.session.registry.userMacro? Spelling.usePackage = none)
    (h : outcome (place env block rounds) s = (.ok piece, middle)) :
    piece = "" ∧ ∃ session, session.registry.Built ∧
      (∀ s', Alongside s s' →
        outcome (includeLibrary env block name) s' = (.ok (), { s' with session })) ∧
      middle = s.behindRow (Spelling.usePackage.toList.length + (name.toList.length + 2)) session := by
  have hFound := hBuilt.lookup?_usePackage hFree (name.toList ++ '\x7d' :: after)
  rw [← hRest] at hFound
  rw [outcome_place_dispatch env block rounds (by simp [hRest]) hFound] at h
  obtain ⟨-, expansion, inner, hRun, rfl, rfl⟩ := dispatch_ok h
  obtain ⟨rfl, hInclude⟩ := usePackage_ok (ExpandState.rest_entered hRest) hName hTrim hRun
  have hElsewhere : ∀ s', Alongside ((s.entered _).advance _) s' → _ :=
    fun s' hAlongside => Portable.includeAlongside hBlock hAlongside hInclude
  have hBack := (hElsewhere _ ⟨rfl, rfl, rfl, Nat.le_refl _⟩).1
  have hInner := (grown.includeLibrary env hGrown name).ok hInclude hBuilt
  obtain ⟨session, document⟩ := inner
  obtain rfl : document = _ := hBack
  refine ⟨rfl, session, hInner.1, fun s' hAlongside => ?_, ?_⟩
  · exact (hElsewhere s' ⟨hAlongside.session, hAlongside.path, hAlongside.target,
      Nat.le_succ_of_le hAlongside.depth_le⟩).2
  · unfold ExpandState.behindRow
    rw [← Reader.advance_advance]
    rfl

/-- So does its whole row, outside of a paragraph. -/
theorem row_included {fuel limit : Nat} (hFuel : fuel ≤ limit) {s t : ExpandState} {name : String}
    {more : List Char} {output result : String} (hName : '\x7d' ∉ name.toList)
    (hTrim : Text.trim name.toList = name.toList)
    (hRest : s.rest = (Library.inclusion name).toList ++ more) (hClosed : s.engine.opened = false)
    (hBuilt : s.session.registry.Built)
    (hFree : s.session.registry.userMacro? Spelling.usePackage = none)
    (h : outcome (block env fuel none output) s = (.ok result, t)) :
    ∃ less session, less ≤ fuel ∧ session.registry.Built ∧
      (∀ s', Alongside s s' → outcome (includeLibrary env (blockReader env limit) name) s' =
        (.ok (), { s' with session })) ∧
      outcome (block env less none output)
        (s.behindRow (Library.inclusion name).toList.length session) = (.ok result, t) := by
  have hShape : s.rest = Spelling.usePackage.toList ++
      '\x7b' :: (name.toList ++ '\x7d' :: '\n' :: more) := by
    rw [hRest, Library.toList_inclusion]
    simp
  cases fuel with
  | zero => cases h
  | succ fuel =>
      rw [outcome_block_place env fuel output (by simp [hShape]) (not_endsAt_none _)] at h
      obtain ⟨piece, middle, hPlace, hBehind⟩ := outcome_bind_ok h
      obtain ⟨rfl, session, hSession, hElsewhere, rfl⟩ := place_usePackage
        (Portable.blockReader env fuel) (fun marker? => grown.block env fuel marker? "")
        hName hTrim hShape hBuilt hFree hPlace
      rw [String.append_empty] at hBehind
      cases fuel with
      | zero => cases hBehind
      | succ fuel =>
          have hBreak : (s.behindRow (Spelling.usePackage.toList.length + (name.toList.length + 2))
              session).rest = '\n' :: more := by
            change (s.advance _).rest = _
            rw [s.rest_advance, hRest, Library.toList_inclusion]
            simp
          rw [outcome_block_place env fuel output (by simp [hBreak]) (not_endsAt_none _),
            outcome_bind_of_ok (outcome_place_break hBreak hSession hClosed),
            String.append_empty] at hBehind
          refine ⟨fuel, session, by omega, hSession, fun s' hAlongside =>
            (includeLibrary_below env (by omega) name).ok (hElsewhere s' hAlongside), ?_⟩
          have hLength : (Library.inclusion name).toList.length =
              Spelling.usePackage.toList.length + (name.toList.length + 2) + 1 := by
            rw [Library.toList_inclusion]
            simp
            omega
          rw [hLength]
          unfold ExpandState.behindRow
          rw [← Reader.advance_advance]
          exact hBehind

/-- Rows that include libraries do what preloading does at the start of the text behind
them. The induction is on the libraries; each row leaves the session that its library leaves
there, and one firing more. -/
theorem rows_included (limit : Nat) {names : List String}
    (hNames : ∀ name ∈ names, '\x7d' ∉ name.toList ∧ Text.trim name.toList = name.toList)
    {fuel depth executed : Nat} {s last t : ExpandState} {reader : Reader}
    {output result : String} (hFuel : fuel ≤ limit)
    (hRest : s.rest = (String.join (names.map Library.inclusion)).toList ++ reader.rest)
    (hRow : s.document.reader.row = []) (hRow' : reader.row = [])
    (hDepth : depth ≤ s.document.depth) (hExecuted : executed ≤ s.document.executed)
    (hClosed : s.engine.opened = false) (hBuilt : s.session.registry.Built)
    (hPreload : outcome (names.forM fun name => includeLibrary env (blockReader env limit) name)
      (s.displaced reader depth executed) = (.ok (), last))
    (hFree : last.session.registry.userMacro? Spelling.usePackage = none)
    (h : outcome (block env fuel none output) s = (.ok result, t)) :
    ∃ less middle surplus, less ≤ limit ∧ Displaced surplus middle last ∧
      outcome (block env less none output) middle = (.ok result, t) := by
  induction names generalizing s fuel with
  | nil =>
      cases hPreload
      rw [List.map_nil, String.join_nil] at hRest
      refine ⟨fuel, s, s.document.executed - executed, hFuel,
        .intro reader depth executed (fun _ => ?_) hRest.symm hDepth (by omega), h⟩
      rw [hRow, hRow']
  | cons name names ih =>
      obtain ⟨hName, hTrim⟩ := hNames name List.mem_cons_self
      have hGrown := (grown.forM (grown.includeLibrary env fun marker? =>
        grown.block env limit marker? "") _).ok hPreload hBuilt
      rw [List.map_cons, String.join_cons, String.toList_append, List.append_assoc] at hRest
      obtain ⟨less, session, hLess, hSession, hElsewhere, hBehind⟩ :=
        row_included hFuel hName hTrim hRest hClosed hBuilt (hGrown.2.free hFree) h
      obtain ⟨u, included, hFirst, hOthers⟩ := outcome_bind_ok hPreload
      have hHere := hElsewhere (s.displaced reader depth executed) ⟨rfl, rfl, rfl, hDepth⟩
      cases hFirst.symm.trans hHere
      have hLater : outcome (names.forM fun name => includeLibrary env (blockReader env limit) name)
          ((s.behindRow (Library.inclusion name).toList.length session).displaced
            reader depth executed) = (.ok (), last) := hOthers
      refine ih (fun name hMem => hNames name (List.mem_cons_of_mem _ hMem))
        (Nat.le_trans hLess hFuel) ?_ ?_ ?_ ?_ ?_ hSession hLater hBehind
      · change (s.advance _).rest = _
        rw [s.rest_advance, hRest, List.drop_left]
      · have hLine : (Library.inclusion name).toList =
            (Spelling.usePackage ++ Spelling.braced name).toList ++ ['\n'] := by
          rw [Library.inclusion, String.toList_append]
          rfl
        change (s.document.reader.advance _).row = []
        rw [hLine, List.append_assoc, List.singleton_append] at hRest
        rw [hLine, List.length_append]
        exact Reader.row_advance_break hRest
      · exact hDepth
      · exact Nat.le_succ_of_le hExecuted
      · exact hClosed

/-- Libraries that are preloaded are so with more fuel. -/
theorem preloading_below (env : Env) {fuel fuel' : Nat} (hFuel : fuel ≤ fuel') (names : List String) :
    Below (names.forM fun name => includeLibrary env (blockReader env fuel) name)
      (names.forM fun name => includeLibrary env (blockReader env fuel') name) :=
  Below.iff_agrees.mpr (.preloading (refueling_exchange env) (refueling_fuel hFuel) names)

/-- A pass expands a text as a document of its own. -/
theorem outcome_pass (env : Env) (fuel : Nat) (source : Source) (text : String) (target : Target)
    (s : ExpandState) : outcome (pass env fuel source text target) s =
      outcome (expandDocument env fuel)
        { s with document := DocumentState.start source.filename source.path text target } :=
  outcome_bind_of_ok (outcome_modifyDocument _ s)

/-- A compilation that succeeds has its libraries included, its document normalized and, if
its target asks for it, the normalized text rendered. -/
theorem passes_ok {fuel : Nat} {source : Source} {target : Target} {text : String}
    {s t : ExpandState} (h : outcome (passes env fuel source target) s = (.ok text, t)) :
    ∃ included normalized middle,
      outcome (env.options.preload.forM fun name => includeLibrary env (blockReader env fuel) name) s =
        (.ok (), included) ∧
      outcome (expandDocument env fuel) included = (.ok normalized, middle) ∧
      if target.isRender then outcome (pass env fuel source normalized target) middle = (.ok text, t)
      else text = normalized := by
  obtain ⟨⟨⟩, included, hPreload, hPasses⟩ := outcome_bind_ok h
  obtain ⟨normalized, middle, hNormalize, hRender⟩ := outcome_bind_ok hPasses
  refine ⟨included, normalized, middle, hPreload, hNormalize, ?_⟩
  by_cases hTarget : target.isRender
  · rw [if_pos hTarget] at hRender ⊢
    exact hRender
  · rw [if_neg hTarget] at hRender ⊢
    cases hRender
    rfl

/-- The document behind the rows is normalized to the same text, and in the same session, as
where the libraries are preloaded. -/
theorem expandDocument_including {fuel : Nat} {names : List String} {source : Source}
    (hNames : ∀ name ∈ names, '\x7d' ∉ name.toList ∧ Text.trim name.toList = name.toList)
    {normalized normalized' : String} {last t t' : ExpandState}
    (hPreload : outcome (names.forM fun name => includeLibrary env (blockReader env fuel) name)
      (Compiler.opening source source.text) = (.ok (), last))
    (hFree : last.session.registry.userMacro? Spelling.usePackage = none)
    (h : outcome (expandDocument env fuel) last = (.ok normalized, t))
    (h' : outcome (expandDocument env fuel)
      (Compiler.opening (source.including names) (source.including names).text) =
        (.ok normalized', t')) :
    normalized' = normalized ∧ t'.session = t.session := by
  obtain ⟨output, ended, hBlock, hText, hEnded⟩ := wholeDocument_ok h'
  have hOpening : Compiler.opening source source.text =
      (Compiler.opening (source.including names) (source.including names).text).displaced
        (Reader.ofText source.text) 0 0 := rfl
  rw [hOpening] at hPreload
  obtain ⟨less, middle, surplus, hLess, hDisplaced, hBehind⟩ :=
    rows_included fuel hNames (Nat.le_refl fuel) String.toList_append rfl rfl (Nat.le_refl _)
      (Nat.le_refl _) rfl Registry.Built.builtins hPreload hFree hBlock
  have hRows : outcome (wholeDocument (blockReader env less)) middle = (.ok normalized', t') := by
    have hReader : outcome (blockReader env less none) middle = (.ok output, ended) := hBehind
    rw [outcome_wholeDocument, hReader, hText, hEnded]
  obtain ⟨u, hHere, hSame⟩ :=
    Portable.wholeDocument (Portable.blockReader env less) _ _ _ hDisplaced _ _ hRows
  cases h.symm.trans ((expandDocument_below env hLess).ok hHere)
  exact ⟨rfl, hSame.session.symm⟩

end Expand

namespace Compiler

open Expand

/-- The macros that are known behind the libraries that are preloaded. -/
def preloaded (fuel : Nat) (env : Env) (source : Source) : Registry :=
  (outcome (env.options.preload.forM fun name => includeLibrary env (blockReader env fuel) name)
    (opening source source.text)).2.session.registry

/-- A document without front matter that compiles has no headers, and its passes succeed. -/
theorem compileWith_ok {fuel : Nat} {env : Env} {source : Source} {target : Target}
    {output : Output} (hMatter : FrontMatter.parts? (Text.rows source.text.toList) = .ok none)
    (h : compileWith fuel env source target = .ok output) :
    ∃ document last, output = { document, headers := ∅ } ∧
      outcome (passes env fuel source target) (opening source source.text) = (.ok document, last) := by
  rw [compileWith_eq, FrontMatter.extract_of_parts? hMatter] at h
  dsimp only at h
  split at h
  · rename_i document hRun
    cases h
    obtain ⟨last, hPasses⟩ := outcome_ok_of_fst hRun
    exact ⟨document, last, rfl, hPasses⟩
  · cases h

/-- Libraries that are preloaded are included as if the document started with a row for each
of them: where both compilations succeed, they come out the same, as long as no library
redefines the directive that includes libraries. The document has no front matter, and the
names can be written in a scope. -/
theorem preloading_includes {fuel fuel' : Nat} {env : Env} {names : List String} {source : Source}
    {target : Target} {output output' : Output}
    (hNames : ∀ name ∈ names, '\x7d' ∉ name.toList ∧ Text.trim name.toList = name.toList)
    (hMatter : FrontMatter.parts? (Text.rows source.text.toList) = .ok none)
    (hFree : (preloaded fuel (env.withPreload names) source).userMacro? Spelling.usePackage = none)
    (h : compileWith fuel (env.withPreload names) source target = .ok output)
    (h' : compileWith fuel' (env.withPreload []) (source.including names) target = .ok output') :
    output' = output := by
  obtain ⟨document, last, rfl, hRun⟩ := compileWith_ok hMatter h
  obtain ⟨document', last', rfl, hRun'⟩ :=
    compileWith_ok (Source.parts?_including hMatter names) h'
  obtain ⟨included, normalized, middle, hPreload, hNormalize, hRender⟩ := passes_ok hRun
  obtain ⟨_, normalized', middle', ⟨⟩, hNormalize', hRender'⟩ := passes_ok hRun'
  have hIncluded : included.session.registry.userMacro? Spelling.usePackage = none := by
    unfold preloaded at hFree
    rw [hPreload] at hFree
    exact hFree
  rw [includeLibrary_withPreload, blockReader_withPreload] at hPreload
  rw [expandDocument_withPreload] at hNormalize hNormalize'
  have hEnough := Nat.le_max_left fuel fuel'
  have hEnough' := Nat.le_max_right fuel fuel'
  obtain ⟨rfl, hSession⟩ := expandDocument_including hNames
    ((preloading_below env hEnough names).ok hPreload) hIncluded
    ((expandDocument_below env hEnough).ok hNormalize)
    ((expandDocument_below env hEnough').ok hNormalize')
  by_cases hTarget : target.isRender
  · -- The last pass starts a document of its own, so that it depends on the session only.
    rw [if_pos hTarget, outcome_pass, expandDocument_withPreload] at hRender hRender'
    rw [hSession] at hRender'
    have hHere := (expandDocument_below env hEnough).ok hRender
    have hBehind := (expandDocument_below env hEnough').ok hRender'
    cases hHere.symm.trans hBehind
    rfl
  · rw [if_neg hTarget] at hRender hRender'
    rw [hRender, hRender']

def helloFiles : FileTree where
  workingDirectory := []
  files := [(["who.ctx"], "\\newcommand\x7bwho:\x7d\x7bWorld\x7d".toUTF8),
    (["hello.ctx"], ("\\usepackage\x7bwho\x7d" ++
      "\\newcommand\x7bem: raw(x) ctx->web\x7d\x7b<em>#x</em>\x7d").toUTF8)]
  directories := []

def helloEnv : Env :=
  { plainEnv with files := helloFiles }

def hello : Source :=
  Source.ofText "  Hello, \\em\x7b\\who\x7d!"

theorem hello_compiled :
    document? (compileWith 60 (helloEnv.withPreload ["hello", "who"]) hello .web) =
      some "\n<p>Hello, <em>World</em>!</p>\n" ∧
    (document? (compileWith 60 (helloEnv.withPreload [])
      (hello.including ["hello", "who"]) .web)).isSome ∧
    (preloaded 60 (helloEnv.withPreload ["hello", "who"]) hello).userMacro? Spelling.usePackage =
      none := by
  decide +kernel

/-- One of the libraries is included already when its own row is read. -/
theorem preloading_includes_hello :
    document? (compileWith 60 (helloEnv.withPreload []) (hello.including ["hello", "who"]) .web) =
      some "\n<p>Hello, <em>World</em>!</p>\n" := by
  obtain ⟨hPreloaded, hIncluding, hFree⟩ := hello_compiled
  obtain ⟨output, hOutput⟩ := exists_ok_of_document? (Option.isSome_of_eq_some hPreloaded)
  obtain ⟨output', hOutput'⟩ := exists_ok_of_document? hIncluding
  have hSame : output' = output :=
    preloading_includes (by decide) rfl hFree hOutput hOutput'
  rw [hOutput', hSame, ← hOutput]
  exact hPreloaded

end Compiler

end MacroMarkup
