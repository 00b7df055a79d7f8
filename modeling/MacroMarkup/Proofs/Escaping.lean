import MacroMarkup.Proofs.Alternation
import MacroMarkup.Proofs.Expand.Growth
import MacroMarkup.Proofs.Passes.Within
import MacroMarkup.Proofs.Registry.Match

/-! Literal text in web output. Where a document invokes no macro and has no formula, a
character that web output gives a meaning of its own comes from a paragraph marker or from
the entity of an escaped character, whatever longer spellings the registry holds. -/
namespace MacroMarkup

namespace Text

/-- The characters that web output gives a meaning of its own. -/
def special : List Char :=
  ['<', '>', '&', '"']

def startsSpecial (text : List Char) : Bool :=
  text.head?.any special.contains

/-- Text that is put together from marks and from characters that are not special. -/
inductive Escaped (marks : List (List Char)) : List Char → Prop where
  | nil : Escaped marks []
  | char {c : Char} {text : List Char} : c ∉ special → Escaped marks text →
      Escaped marks (c :: text)
  | mark {mark text : List Char} : mark ∈ marks → Escaped marks text → Escaped marks (mark ++ text)

/-- A text without its marks, each removed where it comes next. The first `skip` characters
belong to a mark that was found before. -/
def withoutMarks (marks : List (List Char)) : Nat → List Char → List Char
  | _, [] => []
  | skip + 1, _ :: text => withoutMarks marks skip text
  | 0, c :: text =>
    match marks.find? (·.isPrefixOf (c :: text)) with
    | some mark => withoutMarks marks (mark.length - 1) text
    | none => c :: withoutMarks marks 0 text

/-- Marks that can be told apart. None is the start of another, and none starts with a
character that is not special in front of what may start a mark. -/
structure Separable (marks : List (List Char)) : Prop where
  filled : [] ∉ marks
  apart : ∀ mark ∈ marks, ∀ other ∈ marks, mark <+: other → mark = other
  behind : ∀ mark ∈ marks, startsSpecial mark = true ∨ startsSpecial mark.tail = true ∧
    ∀ other ∈ marks, ¬ mark.tail <+: other ∧ ¬ other <+: mark.tail

variable {marks : List (List Char)} {text text' : List Char}

theorem Escaped.append (h : Escaped marks text) (h' : Escaped marks text') :
    Escaped marks (text ++ text') := by
  induction h with
  | nil => exact h'
  | char hChar _ ih => exact .char hChar ih
  | mark hMark _ ih =>
      rw [List.append_assoc]
      exact .mark hMark ih

/-- A mark is escaped. -/
theorem escaped_mark (h : text ∈ marks) : Escaped marks text := by
  rw [← List.append_nil text]
  exact .mark h .nil

/-- Text without special characters is escaped. -/
theorem escaped_of_unspecial (h : ∀ c ∈ text, c ∉ special) : Escaped marks text := by
  induction text with
  | nil => exact .nil
  | cons c text ih =>
      rw [List.forall_mem_cons] at h
      exact .char h.1 (ih h.2)

theorem startsSpecial_iff :
    startsSpecial text = true ↔ ∃ c more, text = c :: more ∧ c ∈ special := by
  cases text with
  | nil => simp [startsSpecial]
  | cons c more => simp [startsSpecial]

/-- What is still to be skipped is not looked at. -/
theorem withoutMarks_skip (skip : Nat) (text : List Char) :
    withoutMarks marks skip text = withoutMarks marks 0 (text.drop skip) := by
  induction text generalizing skip with
  | nil => cases skip <;> rfl
  | cons c text ih =>
      cases skip with
      | zero => rfl
      | succ skip => rw [withoutMarks, ih, List.drop_succ_cons]

/-- A mark that is found is taken out as a whole. -/
theorem withoutMarks_mark {mark : List Char} (hFilled : mark ≠ [])
    (hFound : marks.find? (·.isPrefixOf (mark ++ text)) = some mark) :
    withoutMarks marks 0 (mark ++ text) = withoutMarks marks 0 text := by
  obtain ⟨c, more, rfl⟩ := List.exists_cons_of_ne_nil hFilled
  rw [List.cons_append] at hFound ⊢
  rw [withoutMarks, hFound]
  dsimp only
  rw [withoutMarks_skip, List.length_cons, Nat.add_sub_cancel, List.drop_left]

/-- What a mark has behind a first character that is not special never comes next. -/
theorem Escaped.not_behind (h : Escaped marks text) {behind : List Char}
    (hHead : startsSpecial behind = true)
    (hOther : ∀ other ∈ marks, ¬ behind <+: other ∧ ¬ other <+: behind) : ¬ behind <+: text := by
  intro hPrefix
  obtain ⟨d, more, rfl, hSpecial⟩ := startsSpecial_iff.mp hHead
  cases h with
  | nil => simp at hPrefix
  | char hChar => exact hChar ((List.cons_prefix_cons.mp hPrefix).1 ▸ hSpecial)
  | @mark mark text hMark =>
      rcases List.prefix_or_prefix_of_prefix hPrefix (List.prefix_append mark text) with hIn | hOver
      · exact (hOther mark hMark).1 hIn
      · exact (hOther mark hMark).2 hOver

/-- A mark is found where it stands. -/
theorem Separable.find?_mark (hMarks : Separable marks) {mark : List Char} (hMark : mark ∈ marks)
    (text : List Char) : marks.find? (·.isPrefixOf (mark ++ text)) = some mark := by
  have hMatched : mark.isPrefixOf (mark ++ text) = true := by
    rw [List.isPrefixOf_iff_prefix]
    exact List.prefix_append mark text
  cases hFind : marks.find? (·.isPrefixOf (mark ++ text)) with
  | none => exact absurd hMatched (List.find?_eq_none.mp hFind mark hMark)
  | some other =>
      have hOther := List.mem_of_find?_eq_some hFind
      have hBegins : other.isPrefixOf (mark ++ text) = true :=
        (List.find?_eq_some_iff_append.mp hFind).1
      rw [List.isPrefixOf_iff_prefix] at hBegins
      rcases List.prefix_or_prefix_of_prefix hBegins (List.prefix_append mark text) with
        hIn | hOver
      · rw [hMarks.apart other hOther mark hMark hIn]
      · rw [hMarks.apart mark hMark other hOther hOver]

/-- No mark is found at a character that is not special. The characters behind it may belong
to a mark, but not to one that starts with it. -/
theorem Separable.find?_char (hMarks : Separable marks) {c : Char} (hChar : c ∉ special)
    (hText : Escaped marks text) : marks.find? (·.isPrefixOf (c :: text)) = none := by
  rw [List.find?_eq_none]
  intro mark hMark hMatched
  rw [List.isPrefixOf_iff_prefix] at hMatched
  obtain ⟨d, more, rfl⟩ :=
    List.exists_cons_of_ne_nil (ne_of_mem_of_not_mem hMark hMarks.filled)
  obtain ⟨rfl, hMore⟩ := List.cons_prefix_cons.mp hMatched
  rcases hMarks.behind _ hMark with hHead | ⟨hHead, hOther⟩
  · obtain ⟨e, rest, hSame, hSpecial⟩ := startsSpecial_iff.mp hHead
    cases hSame
    exact hChar hSpecial
  · exact hText.not_behind hHead hOther hMore

/-- Behind the removal of its marks, such a text has no special characters. -/
theorem Escaped.unspecial (hMarks : Separable marks) (h : Escaped marks text) :
    ∀ c ∈ withoutMarks marks 0 text, c ∉ special := by
  induction h with
  | nil => exact fun _ hMem => absurd hMem List.not_mem_nil
  | char hChar hText ih =>
      rw [withoutMarks, hMarks.find?_char hChar hText]
      exact List.forall_mem_cons.mpr ⟨hChar, ih⟩
  | @mark mark text hMark hText ih =>
      rw [withoutMarks_mark (ne_of_mem_of_not_mem hMark hMarks.filled)
        (hMarks.find?_mark hMark text)]
      exact ih

end Text

open Text (Escaped)

/-- What web output may write special characters in: the markers of its paragraphs, and the
escaped characters that become entities. -/
def webMarks : List (List Char) :=
  [Target.web.paragraphMarkers.1.toList, Target.web.paragraphMarkers.2.toList] ++
    (EscapedChar.table.map (·.web.toList)).filter (·.head? = some '&')

example : webMarks =
    ["\n<p>", "</p>\n", "&nbsp;", "&quot;", "&amp;", "&lt;", "&gt;"].map String.toList := by
  decide +kernel

/-- The marks of the web can be told apart at their first characters. -/
theorem separable_webMarks : Text.Separable webMarks where
  filled := by decide +kernel
  apart := by decide +kernel
  behind := by decide +kernel

/-- Each entity is a mark, or has nothing special in it. -/
theorem escaped_web {char : EscapedChar} (h : char ∈ EscapedChar.table) :
    Escaped webMarks char.web.toList := by
  have hAll : ∀ char ∈ EscapedChar.table,
      char.web.toList ∈ webMarks ∨ ∀ c ∈ char.web.toList, c ∉ Text.special := by
    decide +kernel
  rcases hAll char h with hMark | hPlain
  · exact Text.escaped_mark hMark
  · exact Text.escaped_of_unspecial hPlain

namespace Registry

/-- Registries that hold the builtins, with macros added under spellings of any shape. -/
inductive Enlarged : Registry → Prop where
  | builtins : Enlarged Registry.builtins
  | register {registry : Registry} (spelling : String) (user : UserMacro) : Enlarged registry →
      Enlarged (registry.register spelling (.user user))

variable {registry registry' : Registry}

theorem Enlarged.wellFormed (h : registry.Enlarged) : registry.WellFormed := by
  induction h with
  | builtins => exact sound_builtins.wellFormed
  | register spelling user _ ih => exact ih.register spelling _

/-- A builtin stands under its own spelling only. -/
theorem Enlarged.builtin (h : registry.Enlarged) {key : List Char} {builtin : Builtin}
    (hBound : registry.bound key = some (.builtin builtin)) :
    ∃ spelling, (spelling, builtin) ∈ Builtin.table ∧ key = spelling.toList := by
  induction h with
  | builtins => exact sound_builtins.builtin key builtin hBound
  | register spelling user hOld ih =>
      rw [hOld.wellFormed.bound_register] at hBound
      split at hBound
      · cases hBound
      · exact ih hBound

/-- A spelling may be taken from its builtin, but it stays one. -/
theorem Enlarged.isSome_bound (h : registry.Enlarged) {spelling : String} {builtin : Builtin}
    (hTable : (spelling, builtin) ∈ Builtin.table) : (registry.bound spelling.toList).isSome := by
  induction h with
  | builtins => exact sound_builtins.table spelling builtin hTable
  | register spelling' user hOld ih =>
      rw [hOld.wellFormed.bound_register]
      split
      · rfl
      · exact ih

/-- Definitions enlarge a registry further. -/
theorem Enlarged.define (h : registry.Enlarged) {definition : Definition}
    (hDefine : registry.define definition = .ok registry') : registry'.Enlarged := by
  obtain ⟨user, rfl, -⟩ := define_ok hDefine
  exact h.register _ user

/-- A special character is never literal, since it is a spelling itself. -/
theorem Enlarged.unspecial_of_literal (h : registry.Enlarged) {c : Char} {text : List Char}
    (hLiteral : registry.lookup? (c :: text) = none) : c ∉ Text.special := by
  intro hSpecial
  have hTable : ∀ c ∈ Text.special, ∃ entry ∈ Builtin.table, entry.1.toList = [c] := by
    decide +kernel
  obtain ⟨⟨spelling, builtin⟩, hMem, hSpelling⟩ := hTable c hSpecial
  have hSome := h.isSome_bound hMem
  have hNone := h.wellFormed.bound_eq_none_of_lookup? hLiteral (List.cons_ne_nil c [])
    (List.prefix_append [c] text)
  rw [show spelling.toList = [c] from hSpelling, hNone] at hSome
  cases hSome

end Registry

/-- Handlers that put out nothing of what a document writes for them as it is: neither a
macro nor a formula. -/
def Handler.literal : Handler → Bool
  | .builtin .math => false
  | .builtin _ => true
  | .user _ => false

namespace AutoBreak

variable {engine engine' : AutoBreak}

/-- An engine with the markers of web output. -/
structure Marking (engine : AutoBreak) : Prop where
  beginMarker : Escaped webMarks engine.beginMarker.toList
  endMarker : Escaped webMarks engine.endMarker.toList

theorem marking_ofTarget : (ofTarget .web).Marking :=
  ⟨Text.escaped_mark (by decide +kernel), Text.escaped_mark (by decide +kernel)⟩

/-- The engine keeps the markers of the web. -/
theorem Marking.move (h : engine.Marking) (hMove : Move engine engine') : engine'.Marking := by
  obtain ⟨-, hBegin, hEnd⟩ := hMove.kept
  exact ⟨hBegin ▸ h.beginMarker, hEnd ▸ h.endMarker⟩

/-- What a call emits beside markers: at most a space, and the character that it is for. -/
theorem Operation.mem_pieces {operation : Operation} {engine : AutoBreak} {piece : Piece}
    (h : piece ∈ operation.pieces engine) :
    piece = .beginMarker ∨ piece = .endMarker ∨ piece = .text " " ∨
      ∃ c, operation = .process c ∧ piece = .text (String.singleton c) := by
  cases operation with
  | process c =>
      simp only [pieces, beginPieces, endPieces] at h
      grind
  | ensureOpen reopen =>
      simp only [pieces, beginPieces, endPieces] at h
      grind
  | close =>
      simp only [pieces, endPieces] at h
      grind
  | flush =>
      simp only [pieces, endPieces] at h
      grind
  | suspend => cases h
  | restore enabled => cases h

/-- Markers are marks, so only the text between them must be escaped. -/
theorem Marking.escaped_render (h : engine.Marking) {pieces : List Piece}
    (hText : ∀ content, .text content ∈ pieces → Escaped webMarks content.toList) :
    Escaped webMarks (render engine.beginMarker engine.endMarker pieces).toList := by
  induction pieces with
  | nil => exact .nil
  | cons piece pieces ih =>
      rw [render, String.toList_append]
      refine Escaped.append ?_ (ih fun content hMem => hText content (List.mem_cons_of_mem _ hMem))
      cases piece with
      | beginMarker => exact h.beginMarker
      | endMarker => exact h.endMarker
      | text content => exact hText content List.mem_cons_self

def Operation.Unspecial : Operation → Prop
  | process c => c ∉ Text.special
  | _ => True

/-- Such a call emits special characters in markers only. -/
theorem Marking.escaped_apply (h : engine.Marking) (operation : Operation)
    (hUnspecial : operation.Unspecial) : Escaped webMarks (operation.apply engine).1.toList := by
  have hPieces := operation.apply_withMarkers engine.beginMarker engine.endMarker engine
  have hOwn : engine.withMarkers engine.beginMarker engine.endMarker = engine := rfl
  rw [hOwn] at hPieces
  rw [hPieces]
  refine h.escaped_render fun content hMem => ?_
  rcases Operation.mem_pieces hMem with hMark | hMark | hSpace | ⟨c, rfl, hSingle⟩
  · cases hMark
  · cases hMark
  · cases hSpace
    exact Text.escaped_of_unspecial (by decide)
  · cases hSingle
    rw [String.toList_singleton]
    exact .char hUnspecial .nil

/-- The settling of a paragraph writes markers and blanks. -/
theorem Marking.escaped_settle (h : engine.Marking) (policy : BreakPolicy) :
    Escaped webMarks (engine.settle policy).1.toList := by
  have hFlushed := h.move (.flush engine)
  unfold AutoBreak.settle
  dsimp only
  rw [String.toList_append]
  refine (h.escaped_apply .flush trivial).append ?_
  cases policy with
  | wrapInParagraph => exact hFlushed.escaped_apply (.ensureOpen false) trivial
  | leaveParagraph => exact hFlushed.escaped_apply .close trivial

end AutoBreak

namespace Expand

variable {env : Env} {block : BlockReader} {s s' : ExpandState}

/-- Later, and with nothing but macros added to the builtins. -/
def Enlarging (s s' : ExpandState) : Prop :=
  s.session.registry.Enlarged → s'.session.registry.Enlarged

/-- Definitions only ever enlarge the registry, whatever is run. -/
theorem enlarging : Law Enlarging Enlarging where
  refl _ h := h
  trans h h' hEnlarged := h' (h hEnlarged)
  failing _ _ _ h := h
  exhausted h := h
  refused _ _ h := h
  following _ _ _ _ h h' hEnlarged := h' (h hEnlarged)
  reading _ _ h := h
  moving _ _ _ h := h
  suspending _ _ h := h
  suspendingFailed _ _ _ h := h
  scoping _ _ h := h
  scopingFailed _ _ _ h := h
  counting _ _ h := h
  defining _ _ _ _ _ _ _ hDefine h := h.define hDefine
  loading _ _ h := h
  nesting _ _ _ _ h := h
  includingFailed _ _ _ _ _ _ h := h
  generatingFailed _ _ _ _ h := h

/-- A state of the pass for web output. -/
structure Escaping (s : ExpandState) : Prop where
  enlarged : s.session.registry.Enlarged
  target : s.document.target = .web
  engine : s.engine.Marking

/-- Later in the same document, with macros added. -/
def Wider (s s' : ExpandState) : Prop :=
  Onward s s' ∧ Enlarging s s'

/-- Everything goes on in the same document, with macros added. -/
theorem wider : Law Wider Wider :=
  onward.and enlarging

/-- The later state escapes what the earlier one does. -/
theorem Escaping.later (h : Escaping s) (hLater : Wider s s') : Escaping s' where
  enlarged := hLater.2 h.enlarged
  target := hLater.1.target.trans h.target
  engine := ⟨hLater.1.beginMarker ▸ h.engine.beginMarker, hLater.1.endMarker ▸ h.engine.endMarker⟩

/-- Reads blocks without macros and formulas. -/
structure LiteralReader (block : BlockReader) : Prop where
  keeps : ∀ marker?, Keeps Wider Wider (block marker?)
  escapes : ∀ {marker? : Option (List Char)} {s s' : ExpandState} {text : String}, Escaping s →
    outcome (block marker?) s = (.ok text, s') → Escaped webMarks text.toList

/-- A paragraph that is asked for comes out escaped, if its scope does. -/
theorem escaped_paragraph (hBlock : LiteralReader block) (hs : Escaping s) {expansion : Expansion}
    (h : outcome (paragraph env block) s = (.ok expansion, s')) :
    Escaped webMarks expansion.text.toList := by
  obtain ⟨contents, middle, hScope, rfl, -⟩ := paragraph_ok h
  obtain ⟨-, text, inner, -, hContents, -⟩ := parsedScope_ok hScope
  have hOpened := hs.engine.move (.ensureOpen true s.engine)
  have hInside : Escaping ((s.withEngine (s.engine.ensureOpen true).2).suspend.entered 1) :=
    ⟨hs.enlarged, hs.target, hOpened.beginMarker, hOpened.endMarker⟩
  rw [Expansion.text, String.toList_append]
  exact (hs.engine.escaped_apply (.ensureOpen true) trivial).append
    (hBlock.escapes hInside hContents)

/-- No builtin but a formula puts out what the document has behind its invocation. -/
theorem escaped_runBuiltin (hBlock : LiteralReader block) (hs : Escaping s) {spelling : String}
    {builtin : Builtin} (hTable : (spelling, builtin) ∈ Builtin.table) (hMath : builtin ≠ .math)
    {invocation : String} {expansion : Expansion}
    (h : outcome (runBuiltin env block builtin invocation) s = (.ok expansion, s')) :
    Escaped webMarks expansion.text.toList := by
  cases builtin with
  | escape => cases h
  | escapedChar char =>
      change outcome (escapedChar char invocation) s = _ at h
      rw [outcome_escapedChar, hs.target] at h
      have hText := (hs.engine.escaped_settle .wrapInParagraph).append
        (escaped_web (Registry.table_escapedChar hTable).1)
      split at h
      all_goals
        cases h
        rw [Expansion.text, String.toList_append]
        exact hText
  | comment =>
      change outcome comment s = _ at h
      rw [outcome_comment] at h
      cases h
      exact .nil
  | scopeBegin => cases h
  | scopeEnd => cases h
  | usePackage =>
      obtain ⟨name, middle, -, hRest⟩ := outcome_bind_ok h
      obtain ⟨u, last, -, hPure⟩ := outcome_bind_ok hRest
      cases hPure
      exact .nil
  | newCommand =>
      obtain ⟨u, middle, -, hPure⟩ := outcome_bind_ok h
      cases hPure
      exact .nil
  | newEnvironment =>
      obtain ⟨u, middle, -, hPure⟩ := outcome_bind_ok h
      cases hPure
      exact .nil
  | environmentBegin =>
      obtain ⟨name, middle, -, hFail⟩ := outcome_bind_ok h
      cases hFail
  | environmentEnd => cases h
  | paragraph => exact escaped_paragraph hBlock hs h
  | math => exact absurd rfl hMath

/-- The step of the run law: one place comes out escaped. -/
theorem escaped_place (hBlock : LiteralReader block) (hs : Escaping s) {rounds : Nat}
    {piece : String}
    (h : outcome (placeWithin Handler.literal env block rounds) s = (.ok piece, s')) :
    Escaped webMarks piece.toList := by
  obtain ⟨hAllowed, hPlace⟩ := placeWithin_ok h
  by_cases hRest : s.rest = []
  · rw [outcome_place_atEnd env block rounds hRest] at hPlace
    cases hPlace
    exact .nil
  cases hLookup : s.session.registry.lookup? s.rest with
  | none =>
      obtain ⟨c, text, hText⟩ := List.exists_cons_of_ne_nil hRest
      rw [hText] at hLookup
      rw [outcome_place env block rounds hText, hLookup] at hPlace
      dsimp only at hPlace
      rw [outcome_literal] at hPlace
      cases hPlace
      exact hs.engine.escaped_apply (.process c) (hs.enlarged.unspecial_of_literal hLookup)
  | some found =>
      obtain ⟨length, handler⟩ := found
      have hLiteral := hAllowed length handler hLookup
      rw [outcome_place_dispatch env block rounds hRest hLookup] at hPlace
      obtain ⟨-, expansion, middle, hHandler, rfl, -⟩ := dispatch_ok hPlace
      obtain ⟨key, hLongest, rfl⟩ := hs.enlarged.wellFormed.longest_of_lookup? hLookup
      cases handler with
      | user called => cases hLiteral
      | builtin builtin =>
          obtain ⟨spelling, hTable, -⟩ := hs.enlarged.builtin hLongest.bound
          have hMath : builtin ≠ .math := by
            rintro rfl
            cases hLiteral
          have hEntered : Escaping (s.entered key.length) := ⟨hs.enlarged, hs.target, hs.engine⟩
          exact escaped_runBuiltin hBlock hEntered hTable hMath hHandler

/-- The induction is on the fuel, and one step of it reads one place. -/
theorem literalReader (env : Env) (fuel : Nat) :
    LiteralReader (blockWithin Handler.literal env fuel) := by
  have hKeeps : ∀ fuel marker?,
      Keeps Wider Wider (blockWithin Handler.literal env fuel marker?) := by
    unfold blockWithin
    rw [placeWithin_eq]
    exact fun fuel marker? => wider.blockIf fuel marker?
  induction fuel with
  | zero => exact ⟨hKeeps 0, fun _ h => nomatch h⟩
  | succ fuel ih =>
      refine ⟨hKeeps _, fun {marker?} {s} {s'} {text} hs h => ?_⟩
      rcases loop_ok h with ⟨-, -, rfl, -⟩ | ⟨marker, -, -, -, rfl, -⟩ |
        ⟨-, -, piece, middle, after, hPlace, hAfter, rfl⟩
      · exact .nil
      · exact .nil
      · have hRead := (placeWithin_ok hPlace).2
        have hLater := (wider.place env ih.keeps fuel).ok hRead
        rw [String.toList_append]
        exact (escaped_place ih hs hPlace).append (ih.escapes (hs.later hLater) hAfter)

/-- A run for web output that invokes no macro and no formula puts out text in which each
special character belongs to a paragraph marker or to an entity, and none is left when these
are removed. It does so for any macros beside the builtins. -/
theorem literal_text_escaped {fuel : Nat} {session : Session}
    (hEnlarged : session.registry.Enlarged) {file path text out : String} {last : ExpandState}
    (hRun : outcome (documentWithin Handler.literal env fuel)
      ⟨session, DocumentState.start file path text .web⟩ = (.ok out, last)) :
    outcome (expandDocument env fuel) ⟨session, DocumentState.start file path text .web⟩ =
        (.ok out, last) ∧
      Escaped webMarks out.toList ∧
      ∀ c ∈ Text.withoutMarks webMarks 0 out.toList, c ∉ Text.special := by
  refine ⟨(documentWithin_below Handler.literal env fuel).ok hRun, ?_⟩
  obtain ⟨output, middle, hBlock, rfl, -⟩ := wholeDocument_ok hRun
  have hStart : Escaping ⟨session, DocumentState.start file path text .web⟩ :=
    ⟨hEnlarged, rfl, AutoBreak.marking_ofTarget⟩
  have hReader := literalReader env fuel
  have hMiddle := hStart.later ((hReader.keeps none).ok hBlock)
  have hEscaped : Escaped webMarks (output ++ middle.engine.close.1).toList := by
    rw [String.toList_append]
    exact (hReader.escapes hStart hBlock).append (hMiddle.engine.escaped_apply .close trivial)
  exact ⟨hEscaped, hEscaped.unspecial separable_webMarks⟩

def arrow : UserMacro :=
  { kind := .command, name := "arrow", signature := ⟨[], .webRender, .wrapInParagraph⟩,
    bodies := { raw := some { language := .raw, params := [], code := "<hr>" } } }

def arrowSession : Session :=
  .ofRegistry (Registry.builtins.register "<-" (.user arrow))

/-- Special characters as literal text, in a paragraph of its own and behind a comment, with
a macro that is defined but not invoked. -/
def arrows : String :=
  "\\newcommand\x7bb: raw()\x7d\x7b<b>\x7d if a<b & b>c % <i>\n\n" ++
    "\\paragraph\x7b\"<p>\"\x7d\n\nd\\ <e"

def arrowsOut : String :=
  "\n<p>if a&lt;b &amp; b&gt;c</p>\n\n<p>&quot;&lt;p&gt;&quot;</p>\n\n<p>d&nbsp;&lt;e</p>\n"

theorem arrows_rendered :
    (outcome (documentWithin Handler.literal plainEnv 100)
        ⟨arrowSession, DocumentState.start "<string>" "" arrows .web⟩).1 = .ok arrowsOut := by
  decide +kernel

theorem literal_text_escaped_arrows :
    arrowSession.registry.Enlarged ∧
    ∃ last,
      outcome (documentWithin Handler.literal plainEnv 100)
          ⟨arrowSession, DocumentState.start "<string>" "" arrows .web⟩ = (.ok arrowsOut, last) ∧
      outcome (expandDocument plainEnv 100)
          ⟨arrowSession, DocumentState.start "<string>" "" arrows .web⟩ = (.ok arrowsOut, last) ∧
      Escaped webMarks arrowsOut.toList ∧
      ∀ c ∈ Text.withoutMarks webMarks 0 arrowsOut.toList, c ∉ Text.special := by
  have hEnlarged : arrowSession.registry.Enlarged :=
    Registry.Enlarged.builtins.register "<-" arrow
  obtain ⟨last, hRun⟩ := outcome_ok_of_fst arrows_rendered
  exact ⟨hEnlarged, last, hRun, literal_text_escaped hEnlarged hRun⟩

end Expand

end MacroMarkup
