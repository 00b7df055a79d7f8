import MacroMarkup.Proofs.Expand.Growth
import MacroMarkup.Proofs.Passes.Agreement

/-! The normalized text read back off doc output. Doc output marks where paragraphs begin and
end, spells some characters in its own way, and keeps formulas as they are written. Every
escape that it has begins with a backslash, and none of them goes on from another, so that
the text that was rendered can be told from it. -/
namespace MacroMarkup

namespace DocOutput

/-- The escaped character whose spelling in doc output the text starts with. -/
def escaped? (text : List Char) : Option EscapedChar :=
  EscapedChar.table.find? fun char => char.doc.toList.isPrefixOf text

/-- The normalized text that doc output was rendered from, from inside or outside of a
paragraph on. On texts that are no doc output it says nothing. -/
def source (opened : Bool) (output : List Char) : List Char :=
  match output with
  | [] => []
  | c :: rest =>
    if !opened then source true (rest.drop (Target.doc.paragraphMarkers.1.length - 1))
    else if c = '\n' then Target.normalize.paragraphMarkers.2.toList ++ source false rest
    else if c = '$' then
      let formula := rest.takeWhile (· ≠ '$')
      '$' :: formula ++ '$' :: source true (rest.drop (formula.length + 1))
    else if c = '\\' then
      match escaped? (c :: rest) with
      | some char => char.ctx.toList ++ source true (rest.drop (char.doc.length - 1))
      | none => c :: source true rest
    else c :: source true rest
termination_by output.length
decreasing_by
  all_goals
    simp only [List.length_cons, List.length_drop]
    omega

/-- Characters that stand for themselves in doc output. -/
def Plain (c : Char) : Prop :=
  c ≠ '\n' ∧ c ≠ '$' ∧ c ≠ '\\'

instance (c : Char) : Decidable (Plain c) :=
  inferInstanceAs (Decidable (_ ∧ _))

theorem source_nil (opened : Bool) : source opened [] = [] := by
  rw [source]

/-- A marker that begins a paragraph stands for nothing. -/
theorem source_opening (tail : List Char) :
    source false (Target.doc.paragraphMarkers.1.toList ++ tail) = source true tail := by
  obtain ⟨c, marker, hMarker⟩ := List.exists_cons_of_ne_nil
    (show Target.doc.paragraphMarkers.1.toList ≠ [] by decide)
  have hLength : Target.doc.paragraphMarkers.1.length - 1 = marker.length := by
    rw [← String.length_toList, hMarker]
    rfl
  rw [hMarker, List.cons_append, source, hLength, List.drop_left]
  rfl

/-- A marker that ends a paragraph stands for a blank line. -/
theorem source_closing (tail : List Char) :
    source true (Target.doc.paragraphMarkers.2.toList ++ tail) =
      Target.normalize.paragraphMarkers.2.toList ++ source false tail := by
  have hMarker : Target.doc.paragraphMarkers.2.toList = ['\n'] := rfl
  rw [hMarker, List.singleton_append, source]
  rfl

/-- A plain character stands for itself. -/
theorem source_plain {c : Char} (hPlain : Plain c) (tail : List Char) :
    source true (c :: tail) = c :: source true tail := by
  obtain ⟨hBreak, hFormula, hEscape⟩ := hPlain
  rw [source]
  simp [hBreak, hFormula, hEscape]

/-- Plain text stands for itself. -/
theorem source_plains {text : List Char} (hPlain : ∀ c ∈ text, Plain c) (tail : List Char) :
    source true (text ++ tail) = text ++ source true tail := by
  induction text with
  | nil => rfl
  | cons c text ih =>
      rw [List.forall_mem_cons] at hPlain
      rw [List.cons_append, source_plain hPlain.1, ih hPlain.2]
      rfl

/-- A formula is kept, with all that stands in it. -/
theorem source_formula {formula : List Char} (hFormula : '$' ∉ formula) (tail : List Char) :
    source true ('$' :: formula ++ '$' :: tail) = '$' :: formula ++ '$' :: source true tail := by
  have hInside : ∀ c ∈ formula, (decide (c ≠ '$')) = true := fun c hMem =>
    decide_eq_true fun hSame => hFormula (hSame ▸ hMem)
  rw [List.cons_append, source, List.takeWhile_append_of_pos hInside]
  simp

/-- The spelling of an escaped character in doc output is a backslash and more that no other
one goes on from, or it consists of characters that stand for themselves. -/
theorem table_doc : ∀ char ∈ EscapedChar.table,
    (char.doc.toList.head? = some '\\' ∧ ∀ other ∈ EscapedChar.table,
      other.doc.toList.isPrefixOf char.doc.toList ∨ char.doc.toList.isPrefixOf other.doc.toList →
        other = char) ∨
    char.doc = char.ctx ∧ ∀ c ∈ char.doc.toList, Plain c := by
  decide +kernel

/-- An entity is recognized as that of its character, if it is neither the beginning of
another one nor begins with it. -/
theorem escaped?_append {char : EscapedChar} (hChar : char ∈ EscapedChar.table)
    (hAlone : ∀ other ∈ EscapedChar.table, other.doc.toList.isPrefixOf char.doc.toList ∨
      char.doc.toList.isPrefixOf other.doc.toList → other = char) (tail : List Char) :
    escaped? (char.doc.toList ++ tail) = some char := by
  unfold escaped?
  cases hFound : EscapedChar.table.find? fun other =>
      other.doc.toList.isPrefixOf (char.doc.toList ++ tail) with
  | none =>
      refine absurd ?_ (List.find?_eq_none.mp hFound char hChar)
      exact List.isPrefixOf_iff_prefix.mpr (List.prefix_append _ _)
  | some other =>
      have hOther := List.find?_some hFound
      rw [List.isPrefixOf_iff_prefix] at hOther
      rw [hAlone other (List.mem_of_find?_eq_some hFound)]
      simp only [List.isPrefixOf_iff_prefix]
      exact List.prefix_or_prefix_of_prefix hOther (List.prefix_append _ _)

/-- The entity of a character stands for its escape. -/
theorem source_escaped {char : EscapedChar} (hChar : char ∈ EscapedChar.table) (tail : List Char) :
    source true (char.doc.toList ++ tail) = char.ctx.toList ++ source true tail := by
  rcases table_doc char hChar with ⟨hHead, hAlone⟩ | ⟨hSame, hPlain⟩
  · have hFound := escaped?_append hChar hAlone tail
    obtain ⟨more, hMore⟩ := List.head?_eq_some_iff.mp hHead
    have hLength : char.doc.length - 1 = more.length := by
      rw [← String.length_toList, hMore]
      rfl
    rw [hMore, List.cons_append] at hFound ⊢
    rw [source, hFound]
    simp [hLength]
  · rw [source_plains hPlain, hSame]

/-- What comes before visible text is read as the blanks that the normalizing pass writes. -/
theorem source_lead {engine : AutoBreak}
    (hMarkers : (engine.beginMarker, engine.endMarker) = Target.doc.paragraphMarkers)
    (tail : List Char) :
    source engine.opened (engine.lead.toList ++ tail) = engine.gap ++ source true tail := by
  have hBegin : engine.beginMarker = Target.doc.paragraphMarkers.1 := congrArg Prod.fst hMarkers
  have hEnd : engine.endMarker = Target.doc.paragraphMarkers.2 := congrArg Prod.snd hMarkers
  unfold AutoBreak.lead AutoBreak.gap
  cases engine.opened with
  | false =>
      rw [if_neg (by decide), if_neg (by decide), hBegin, source_opening]
      rfl
  | true =>
      rw [if_pos rfl, if_pos rfl]
      split
      · rw [hBegin, hEnd, String.toList_append, List.append_assoc, source_closing, source_opening]
        rfl
      · split
        · exact source_plain (by decide) tail
        · rfl

/-- The end of the document stands for what normalization writes there. -/
theorem source_close {engine : AutoBreak} (hOrderly : engine.Orderly)
    (hMarkers : (engine.beginMarker, engine.endMarker) = Target.doc.paragraphMarkers) :
    source engine.opened engine.close.1.toList = engine.normalizing.close.1.toList := by
  have hEnd : engine.endMarker = Target.doc.paragraphMarkers.2 := congrArg Prod.snd hMarkers
  rw [hOrderly.close_normalizing]
  unfold AutoBreak.close
  rw [hOrderly.begun]
  cases engine.opened with
  | false => exact source_nil false
  | true =>
      have hClosing := source_closing []
      rw [source_nil, List.append_nil, List.append_nil] at hClosing
      rw [if_pos rfl, if_pos rfl, if_pos rfl, hEnd, hClosing]

end DocOutput

namespace Expand

open DocOutput

/-- A state of a pass with target doc, where the builtins alone are known. -/
structure Rendering (s : ExpandState) : Prop where
  builtin : s.session.registry = Registry.builtins
  target : s.document.target = .doc
  markers : (s.engine.beginMarker, s.engine.endMarker) = Target.doc.paragraphMarkers
  orderly : s.engine.Orderly

variable {env : Env} {fuel : Nat} {s s' : ExpandState}

/-- The registry of such a state is built, from no definitions. -/
theorem Rendering.built (hs : Rendering s) : s.session.registry.Built := by
  rw [hs.builtin]
  exact .builtins

/-- What is emitted between two states is read as this text, whatever comes behind it. -/
def ReadAs (s : ExpandState) (out : String) (s' : ExpandState) (written : String) : Prop :=
  ∀ tail, source s.engine.opened (out.toList ++ tail) =
    written.toList ++ source s'.engine.opened tail

theorem ReadAs.trans {s'' : ExpandState} {out out' written written' : String}
    (h : ReadAs s out s' written) (h' : ReadAs s' out' s'' written') :
    ReadAs s (out ++ out') s'' (written ++ written') := fun tail => by
  rw [String.toList_append, String.toList_append, List.append_assoc, List.append_assoc, h, h']

/-- What is visible stands behind what was pending. -/
theorem ReadAs.visible (hs : Rendering s) (hOpened : s'.engine.opened = true)
    {item written : String}
    (hItem : ∀ tail, source true (item.toList ++ tail) = written.toList ++ source true tail) :
    ReadAs s (s.engine.lead ++ item) s' (String.ofList s.engine.gap ++ written) := fun tail => by
  rw [String.toList_append, List.append_assoc, source_lead hs.markers, hItem, hOpened]
  simp

/-- What a place of a pass with target doc emits is read as what the normalizing pass writes
there. -/
structure Restored (env : Env) (fuel : Nat) (s : ExpandState) (piece : String)
    (s' : ExpandState) (written : String) : Prop where
  normal : ∀ executed, ∃ executed', outcome (place env (blockReader env fuel) fuel)
    (s.normalizing executed) = (.ok written, s'.normalizing executed')
  source : ReadAs s piece s' written

/-- A literal character is restored, with the layout in front of it. -/
theorem literal_restored (hs : Rendering s) {c : Char} {text : List Char}
    (hRest : s.rest = c :: text) (hLiteral : s.session.registry.lookup? (c :: text) = none)
    {piece : String} (h : outcome (literal c) s = (.ok piece, s')) :
    Rendering s' ∧ ∃ written, Restored env fuel s piece s' written := by
  rw [outcome_literal, Prod.mk.injEq] at h
  obtain ⟨hPiece, rfl⟩ := h
  by_cases hBlank : c = ' ' ∨ c = '\n'
  · rw [AutoBreak.process_blank hBlank] at hPiece ⊢
    cases hPiece
    have hOpened := s.engine.opened_behindBlanks [c]
    refine ⟨⟨hs.builtin, hs.target, ?_, hs.orderly.behindBlanks [c]⟩, "",
      fun executed => ⟨executed, blank_normalizing env _ fuel executed hs.built hBlank hRest⟩,
      fun tail => ?_⟩
    · rw [← hs.markers]
      unfold AutoBreak.behindBlanks
      dsimp only
      split <;> rfl
    · exact congrArg (source · tail) hOpened.symm
  · have hVisible := not_or.mp hBlank
    have hMark := hs.built.unmarked_of_literal hLiteral
    have hPlain : Plain c := ⟨hVisible.2, by rintro rfl; simp at hMark, by rintro rfl; simp at hMark⟩
    rw [hs.orderly.process_eq hVisible] at hPiece ⊢
    cases hPiece
    refine ⟨⟨hs.builtin, hs.target, hs.markers, s.engine.orderly_settled⟩,
      String.ofList s.engine.gap ++ String.singleton c, fun executed => ⟨executed,
        literal_normalizing env _ fuel executed hs.orderly hVisible hRest hLiteral⟩,
      .visible hs rfl fun tail => ?_⟩
    rw [String.toList_singleton]
    exact source_plain hPlain tail

/-- An invocation that comes to the same text in both passes. -/
structure HandlerRestored (env : Env) (fuel : Nat) (handler : Handler) (invocation : String)
    (s : ExpandState) (expansion : Expansion) (s' : ExpandState) (written : String) : Prop where
  normal : ∀ executed, ∃ executed' again, outcome (runHandler env (blockReader env fuel) fuel
    handler invocation) (s.normalizing executed) = (.ok again, s'.normalizing executed') ∧
      again.text = written
  source : ReadAs s expansion.text s' written

/-- An escaped character is restored to its escape. -/
theorem escapedChar_restored (hs : Rendering s) {char : EscapedChar}
    (hChar : char ∈ EscapedChar.table) {invocation : String} {expansion : Expansion}
    (h : outcome (escapedChar char invocation) s = (.ok expansion, s')) :
    Rendering s' ∧ ∃ written, HandlerRestored env fuel (.builtin (.escapedChar char)) invocation
      s expansion s' written := by
  rw [outcome_escapedChar, hs.orderly.settle_eq, hs.target, Prod.mk.injEq] at h
  obtain ⟨hExpansion, rfl⟩ := h
  have hText : expansion.text = s.engine.lead ++ char.doc := by
    rw [← Except.ok.inj hExpansion]
    split <;> rfl
  refine ⟨⟨hs.builtin, hs.target, hs.markers, s.engine.orderly_settled⟩,
    String.ofList s.engine.gap ++ char.ctx, fun executed => ⟨executed,
      escapedChar_normalizing hs.orderly char invocation executed⟩, ?_⟩
  rw [hText]
  exact .visible hs rfl (source_escaped hChar)

/-- A formula is restored as it is. -/
theorem math_restored (hs : Rendering s) {invocation : String} {expansion : Expansion}
    (h : outcome math s = (.ok expansion, s')) :
    Rendering s' ∧ ∃ written, HandlerRestored env fuel (.builtin .math) invocation
      s expansion s' written := by
  obtain ⟨formula, after, hRest, hFormula⟩ := math_ok h
  rw [outcome_math hRest hFormula, hs.orderly.settle_eq, hs.target, if_neg (by decide),
    Prod.mk.injEq] at h
  obtain ⟨hExpansion, rfl⟩ := h
  have hText : expansion.text =
      s.engine.lead ++ (Spelling.math ++ String.ofList formula ++ Spelling.math) := by
    rw [← Except.ok.inj hExpansion]
    simp only [Expansion.text, String.append_assoc]
  refine ⟨⟨hs.builtin, hs.target, hs.markers, s.engine.orderly_settled⟩,
    String.ofList s.engine.gap ++ (Spelling.math ++ String.ofList formula ++ Spelling.math),
    fun executed => ⟨executed, _, math_normalizing hs.orderly hRest hFormula executed, ?_⟩, ?_⟩
  · simp only [Expansion.text, String.append_assoc]
  · rw [hText]
    refine .visible hs rfl fun tail => ?_
    have hMark : Spelling.math.toList = ['$'] := rfl
    rw [String.toList_append, String.toList_append, String.toList_ofList, hMark]
    simpa using source_formula hFormula tail

/-- The handlers that do not fail in such a pass are escaped characters, comments and formulas. -/
theorem handler_restored (hs : Rendering s) {key : List Char} {handler : Handler}
    (hBound : s.session.registry.bound key = some handler) (hAllowed : handler.rendering = true)
    {block : BlockReader} {rounds : Nat} {invocation : String} {expansion : Expansion}
    (h : outcome (runHandler env block rounds handler invocation) s = (.ok expansion, s')) :
    Rendering s' ∧ ∃ written, HandlerRestored env fuel handler invocation s expansion s' written := by
  cases handler with
  | user user =>
      rw [hs.builtin] at hBound
      cases Registry.of_all_handlers Registry.handlers_builtins hBound
  | builtin builtin =>
      obtain ⟨spelling, hTable, -⟩ := hs.built.sound.builtin key builtin hBound
      cases builtin with
      | escapedChar char => exact escapedChar_restored hs (Registry.table_escapedChar hTable).1 h
      | math => exact math_restored hs h
      | comment =>
          change outcome comment s = _ at h
          rw [outcome_comment, Prod.mk.injEq] at h
          obtain ⟨hExpansion, rfl⟩ := h
          cases hExpansion
          exact ⟨⟨hs.builtin, hs.target, hs.markers, hs.orderly⟩, "",
            fun executed => ⟨executed, .fired "", rfl, rfl⟩, fun tail => rfl⟩
      | escape => cases h
      | scopeBegin => cases h
      | scopeEnd => cases h
      | environmentEnd => cases h
      | environmentBegin =>
          obtain ⟨name, middle, -, hRest⟩ := outcome_bind_ok h
          cases hRest
      | usePackage => cases hAllowed
      | newCommand => cases hAllowed
      | newEnvironment => cases hAllowed
      | paragraph => cases hAllowed

/-- The step of the run law: what one place renders stands for what normalization writes
there. -/
theorem place_restored (hs : Rendering s) (hSome : s.rest ≠ []) {piece : String}
    (h : outcome (placeWithin Handler.rendering env (blockWithin Handler.rendering env fuel) fuel) s =
      (.ok piece, s')) :
    Rendering s' ∧ ∃ written, Restored env fuel s piece s' written := by
  obtain ⟨hAllowed, hPlace⟩ := placeWithin_ok h
  obtain ⟨c, text, hRest⟩ := List.exists_cons_of_ne_nil hSome
  cases hLookup : s.session.registry.lookup? (c :: text) with
  | none =>
      rw [outcome_place env _ fuel hRest, hLookup] at hPlace
      exact literal_restored hs hRest hLookup hPlace
  | some found =>
      obtain ⟨length, handler⟩ := found
      rw [← hRest] at hLookup
      rw [outcome_place_dispatch env _ fuel hSome hLookup] at hPlace
      obtain ⟨hDepth, expansion, middle, hHandler, rfl, rfl⟩ := dispatch_ok hPlace
      obtain ⟨key, hLongest, rfl⟩ := hs.built.wellFormed.longest_of_lookup? hLookup
      have hEntered : Rendering (s.entered key.length) :=
        ⟨hs.builtin, hs.target, hs.markers, hs.orderly⟩
      obtain ⟨hMiddle, written, hRestored⟩ : Rendering middle ∧ ∃ written,
          HandlerRestored env fuel handler _ (s.entered key.length) expansion middle written :=
        handler_restored hEntered hLongest.bound (hAllowed _ _ hLookup) hHandler
      refine ⟨⟨hMiddle.builtin, hMiddle.target, hMiddle.markers, hMiddle.orderly⟩, written,
        fun executed => ?_, hRestored.source⟩
      obtain ⟨executed', again, hAgain, rfl⟩ := hRestored.normal executed
      exact ⟨_, dispatch_normalizing env _ fuel executed hSome hLookup hDepth hAgain⟩

/-- A document up to its end, like each of its places. The induction is on the fuel. -/
theorem block_restored (env : Env) (fuel : Nat) {out : String} (hs : Rendering s)
    (h : outcome (blockWithin Handler.rendering env fuel none) s = (.ok out, s')) :
    Rendering s' ∧ ∃ written, ReadAs s out s' written ∧
      ∀ executed, ∃ executed', outcome (blockReader env fuel none) (s.normalizing executed) =
        (.ok written, s'.normalizing executed') := by
  induction fuel generalizing s out with
  | zero => cases h
  | succ fuel ih =>
      rcases loop_ok h with ⟨hRest, -, rfl, rfl⟩ | ⟨marker, hMarker, -⟩ |
        ⟨hSome, hEnds, piece, middle, after, hPlace, hAfter, rfl⟩
      · exact ⟨hs, "", fun tail => rfl, fun executed => ⟨executed,
          outcome_block_atEnd (s := s'.normalizing executed) env fuel "" hRest⟩⟩
      · cases hMarker
      · obtain ⟨hMiddle, written, hWritten⟩ := place_restored hs hSome hPlace
        obtain ⟨hLast, written', hSource, hNormal⟩ := ih hMiddle hAfter
        refine ⟨hLast, written ++ written', hWritten.source.trans hSource, fun executed => ?_⟩
        obtain ⟨executed', hFirst⟩ := hWritten.normal executed
        obtain ⟨executed'', hRest⟩ := hNormal executed'
        exact ⟨executed'',
          outcome_blockReader_then (s := s.normalizing executed) hSome hEnds hFirst hRest⟩

abbrev builtinStart (file path text : String) (target : Target) : ExpandState :=
  (Session.ofRegistry Registry.builtins).opening file path text target

/-- Doc output holds the normalized text. -/
theorem doc_source (env : Env) {fuel : Nat} {file path text out : String} {last : ExpandState}
    (h : outcome (documentWithin Handler.rendering env fuel) (builtinStart file path text .doc) =
      (.ok out, last)) :
    ∃ normalized last', outcome (expandDocument env fuel) (builtinStart file path text .normalize) =
        (.ok normalized, last') ∧
      normalized.toList = source false out.toList := by
  obtain ⟨output, ended, hBlock, rfl, rfl⟩ := wholeDocument_ok h
  have hs : Rendering (builtinStart file path text .doc) :=
    ⟨rfl, rfl, rfl, AutoBreak.orderly_ofTarget .doc⟩
  obtain ⟨hEnded, written, hSource, hNormal⟩ := block_restored env fuel hs hBlock
  obtain ⟨executed, hWritten⟩ := hNormal 0
  refine ⟨_, _, expandDocument_of_block hWritten, ?_⟩
  have hClose := hSource ended.engine.close.1.toList
  rw [source_close hEnded.orderly hEnded.markers] at hClose
  rw [String.toList_append, String.toList_append]
  exact hClose.symm

/-- Two texts over the builtins that come to the same doc output come to the same normalized
text. Nothing is defined or included in them, and no paragraph is written out. -/
theorem doc_lossless (env : Env) {file path text file' path' text' out normalized normalized' : String}
    {docFuel docFuel' fuel fuel' : Nat} {docLast docLast' last last' : ExpandState}
    (hDoc : outcome (documentWithin Handler.rendering env docFuel)
      (builtinStart file path text .doc) = (.ok out, docLast))
    (hDoc' : outcome (documentWithin Handler.rendering env docFuel')
      (builtinStart file' path' text' .doc) = (.ok out, docLast'))
    (hNormal : outcome (expandDocument env fuel) (builtinStart file path text .normalize) =
      (.ok normalized, last))
    (hNormal' : outcome (expandDocument env fuel') (builtinStart file' path' text' .normalize) =
      (.ok normalized', last')) :
    normalized = normalized' := by
  obtain ⟨written, _, hRun, hSource⟩ := doc_source env hDoc
  obtain ⟨written', _, hRun', hSource'⟩ := doc_source env hDoc'
  rw [expandDocument_unique hNormal hRun, expandDocument_unique hNormal' hRun']
  exact String.toList_injective (hSource.trans hSource'.symm)

/-- Two spellings of a line, in one of them with a comment. -/
theorem doc_lossless_spaced : ∃ normalized docLast docLast' last last',
    outcome (documentWithin Handler.rendering plainEnv 20)
      (builtinStart "<string>" "" "R&D % costs\n  of $x$" .doc) =
        (.ok "\n\\paragraph\x7b\x7d\nR\\&D of $x$\n", docLast) ∧
    outcome (documentWithin Handler.rendering plainEnv 20)
      (builtinStart "<string>" "" "\nR&D of\n$x$" .doc) =
        (.ok "\n\\paragraph\x7b\x7d\nR\\&D of $x$\n", docLast') ∧
    outcome (expandDocument plainEnv 20)
      (builtinStart "<string>" "" "R&D % costs\n  of $x$" .normalize) = (.ok normalized, last) ∧
    outcome (expandDocument plainEnv 20)
      (builtinStart "<string>" "" "\nR&D of\n$x$" .normalize) = (.ok normalized, last') := by
  obtain ⟨docLast, hDoc⟩ := outcome_ok_of_fst (show
    (outcome (documentWithin Handler.rendering plainEnv 20)
      (builtinStart "<string>" "" "R&D % costs\n  of $x$" .doc)).1 =
        .ok "\n\\paragraph\x7b\x7d\nR\\&D of $x$\n" by decide +kernel)
  obtain ⟨docLast', hDoc'⟩ := outcome_ok_of_fst (show
    (outcome (documentWithin Handler.rendering plainEnv 20)
      (builtinStart "<string>" "" "\nR&D of\n$x$" .doc)).1 =
        .ok "\n\\paragraph\x7b\x7d\nR\\&D of $x$\n" by decide +kernel)
  obtain ⟨normalized, last, hNormal, -⟩ := doc_source plainEnv hDoc
  obtain ⟨normalized', last', hNormal', -⟩ := doc_source plainEnv hDoc'
  cases doc_lossless plainEnv hDoc hDoc' hNormal hNormal'
  exact ⟨normalized, docLast, docLast', last, last', hDoc, hDoc', hNormal, hNormal'⟩

end Expand

end MacroMarkup
