import MacroMarkup.Proofs.Expand.Run
import MacroMarkup.Proofs.Passes.Engine
import MacroMarkup.Proofs.Text.Paragraphs

/-! Documents without invocations. Each character of such a document is literal, so that the
paragraph engine alone lays the document out, and it does so by paragraphs and words. -/
namespace MacroMarkup

open Text (isSpacing isBoundary runs paragraphs layOut layOutBehind Alternating)

namespace AutoBreak

variable {engine : AutoBreak} {run : List Char}

/-- What literal text comes to from a state of the engine on, up to the end of a document. -/
def written : List Char → AutoBreak → List Char
  | [], engine => engine.close.1.toList
  | c :: text, engine => (engine.process c).1.toList ++ written text (engine.process c).2

/-- A run of blanks writes nothing and stays pending. -/
theorem written_spacing (hSpacing : ∀ c ∈ run, isSpacing c = true) (text : List Char)
    (engine : AutoBreak) :
    written (run ++ text) engine = written text (engine.behindBlanks run) := by
  induction run generalizing engine with
  | nil => rw [behindBlanks_nil, List.nil_append]
  | cons c run ih =>
      rw [List.forall_mem_cons] at hSpacing
      have hBlank : c = ' ' ∨ c = '\n' := by simpa [isSpacing] using hSpacing.1
      rw [List.cons_append, written, process_blank hBlank, ih hSpacing.2, behindBlanks_cons]
      rfl

/-- Inside of a run a character is written as it is. -/
theorem process_settled {c : Char} (hVisible : isSpacing c = false) (engine : AutoBreak) :
    engine.settled.process c = (String.singleton c, engine.settled) := by
  obtain ⟨hSpace, hBreak⟩ := Text.visible_iff.mp hVisible
  simp [AutoBreak.process, processVisible, settled, clearPending, hSpace, hBreak]

/-- A run of visible characters is written as it is. -/
theorem written_settled (hVisible : ∀ c ∈ run, isSpacing c = false) (text : List Char)
    (engine : AutoBreak) :
    written (run ++ text) engine.settled = run ++ written text engine.settled := by
  induction run with
  | nil => rfl
  | cons c run ih =>
      rw [List.forall_mem_cons] at hVisible
      rw [List.cons_append, written, process_settled hVisible.1, ih hVisible.2,
        String.toList_singleton]
      rfl

/-- A word stands behind whatever its first character settles. -/
theorem written_word {lead : String} (hFilled : run ≠ [])
    (hVisible : ∀ c ∈ run, isSpacing c = false)
    (hLead : ∀ c, isSpacing c = false →
      engine.process c = (lead ++ String.singleton c, engine.settled)) (text : List Char) :
    written (run ++ text) engine = lead.toList ++ (run ++ written text engine.settled) := by
  obtain ⟨c, run, rfl⟩ := List.exists_cons_of_ne_nil hFilled
  rw [List.forall_mem_cons] at hVisible
  rw [List.cons_append, written, hLead c hVisible.1, written_settled hVisible.2,
    String.toList_append, String.toList_singleton]
  simp

/-- The first visible character begins a paragraph. -/
theorem process_ofTarget (target : Target) {c : Char} (hVisible : isSpacing c = false) :
    (ofTarget target).process c =
      (target.paragraphMarkers.1 ++ String.singleton c, (ofTarget target).settled) :=
  (orderly_ofTarget target).process_eq (Text.visible_iff.mp hVisible)

/-- What the engine puts between two words of a document. -/
def between (target : Target) (gap : List Char) : String :=
  if isBoundary gap then target.paragraphMarkers.2 ++ target.paragraphMarkers.1 else " "

/-- Between two runs stands a blank, or a paragraph ends and another one begins. -/
theorem lead_behindBlanks (target : Target) {gap : List Char} (hFilled : gap ≠ []) :
    ((ofTarget target).settled.behindBlanks gap).lead = between target gap := by
  unfold between isBoundary
  by_cases hBoundary : 2 ≤ gap.count '\n' <;>
    simp [lead, settled, behindBlanks, clearPending, ofTarget, ofMarkers, hBoundary, hFilled]

/-- The first character of a later run is written behind what stands between the runs. -/
theorem process_behindBlanks (target : Target) {gap : List Char} (hFilled : gap ≠ []) {c : Char}
    (hVisible : isSpacing c = false) :
    ((ofTarget target).settled.behindBlanks gap).process c =
      (between target gap ++ String.singleton c,
        ((ofTarget target).settled.behindBlanks gap).settled) := by
  have hOrderly := (ofTarget target).orderly_settled.behindBlanks gap
  rw [hOrderly.process_eq (Text.visible_iff.mp hVisible), lead_behindBlanks target hFilled]

theorem settled_behindBlanks (gap : List Char) (engine : AutoBreak) :
    (engine.settled.behindBlanks gap).settled = engine.settled := by
  simp [settled, behindBlanks, clearPending]

/-- The marker at the end of a document is the same behind blanks. -/
theorem marker_behindBlanks (blanks : List Char) (engine : AutoBreak) :
    (engine.behindBlanks blanks).close.1 = engine.close.1 := by
  unfold AutoBreak.close behindBlanks
  cases hOpened : engine.opened <;> simp [hOpened]

/-- Runs that take turns are laid out as paragraphs, from outside of a paragraph, from behind
a word, and from behind the spacing that follows a word. -/
theorem written_runs (target : Target) {spacing : Bool} {runs : List (List Char)}
    (h : Alternating spacing runs) :
    let beginning := target.paragraphMarkers.1.toList
    let ending := target.paragraphMarkers.2.toList
    written runs.flatten (ofTarget target) = layOut beginning ending (paragraphs runs) ∧
      (spacing = true →
        written runs.flatten (ofTarget target).settled = layOutBehind beginning ending runs) ∧
      (spacing = false → ∀ gap ≠ [],
        written runs.flatten ((ofTarget target).settled.behindBlanks gap) =
          if isBoundary gap then ending ++ layOut beginning ending (paragraphs runs)
          else layOutBehind beginning ending runs) := by
  intro beginning ending
  induction h with
  | nil spacing =>
      rw [Text.layOut_nil, Text.layOutBehind_nil, List.append_nil, List.flatten_nil]
      refine ⟨rfl, fun _ => rfl, fun _ gap _ => ?_⟩
      rw [ite_self, written, marker_behindBlanks]
      rfl
  | @cons spacing run runs hFilled hSame hRuns ih =>
      rw [List.flatten_cons]
      cases spacing with
      | true =>
          refine ⟨?_, fun _ => ?_, fun hTurn => Bool.noConfusion hTurn⟩
          · have hClosed : (ofTarget target).behindBlanks run = ofTarget target := rfl
            rw [written_spacing hSame, hClosed, ih.1, Text.paragraphs_cons_spacing hSame]
          · rw [written_spacing hSame, ih.2.2 rfl run hFilled, Text.layOutBehind_cons_spacing hSame]
      | false =>
          have hBehind := ih.2.1 rfl
          refine ⟨?_, fun hTurn => Bool.noConfusion hTurn, fun _ gap hGap => ?_⟩
          · rw [written_word hFilled hSame (fun c => process_ofTarget target), hBehind,
              Text.layOut_cons_visible hFilled hSame, List.append_assoc]
          · rw [written_word hFilled hSame (fun c => process_behindBlanks target hGap),
              settled_behindBlanks, hBehind, Text.layOut_cons_visible hFilled hSame,
              Text.layOutBehind_cons_visible hFilled hSame]
            unfold between
            split
            · rw [String.toList_append]
              simp only [List.append_assoc]
              rfl
            · rfl

end AutoBreak

/-- The normal form of a text without invocations. -/
def laidOut (target : Target) (text : List Char) : List Char :=
  layOut target.paragraphMarkers.1.toList target.paragraphMarkers.2.toList (paragraphs (runs text))

/-- What the engine writes for a whole text is its layout. -/
theorem written_eq_laidOut (target : Target) (text : List Char) :
    (AutoBreak.ofTarget target).written text = laidOut target text := by
  obtain ⟨spacing, hTurns⟩ := Text.exists_alternating_runs text
  have hWritten := (AutoBreak.written_runs target hTurns).1
  rwa [Text.flatten_runs] at hWritten

/-- Spacing at the end of a document is never written. -/
theorem AutoBreak.written_append_spacing {after : List Char} (hAfter : Text.Spacing after)
    (text : List Char) (engine : AutoBreak) :
    engine.written (text ++ after) = engine.written text := by
  induction text generalizing engine with
  | nil =>
      have hNone := AutoBreak.written_spacing (Text.spacing_iff.mp hAfter) [] engine
      rw [List.append_nil] at hNone
      rw [List.nil_append, hNone, written, written, marker_behindBlanks]
  | cons c text ih => rw [List.cons_append, written, written, ih]

/-- Spacing around a text does not show. -/
theorem laidOut_surrounded (target : Target) {before after : List Char}
    (hBefore : Text.Spacing before) (hAfter : Text.Spacing after) (text : List Char) :
    laidOut target (before ++ text ++ after) = laidOut target text := by
  have hStart : (AutoBreak.ofTarget target).behindBlanks before = AutoBreak.ofTarget target := rfl
  rw [← written_eq_laidOut, ← written_eq_laidOut, AutoBreak.written_append_spacing hAfter,
    AutoBreak.written_spacing (Text.spacing_iff.mp hBefore), hStart]

/-- Blanks alone are laid out as nothing. -/
theorem laidOut_spacing (target : Target) {text : List Char} (h : Text.Spacing text) :
    laidOut target text = [] := by
  have hNone := laidOut_surrounded target h Text.spacing_nil []
  rwa [List.append_nil, List.append_nil] at hNone

/-- Text in which no builtin is spelled anywhere. -/
def Builtin.Unspelled (text : List Char) : Prop :=
  ∀ entry ∈ Builtin.table, ¬ entry.1.toList <:+: text

instance (text : List Char) : Decidable (Builtin.Unspelled text) :=
  inferInstanceAs (Decidable (∀ entry ∈ Builtin.table, ¬ entry.1.toList <:+: text))

/-- In text without their spellings no builtin is found. -/
theorem Registry.lookup?_builtins_of_unspelled {text : List Char} (h : Builtin.Unspelled text) :
    Registry.builtins.lookup? text = none := by
  rw [sound_builtins.wellFormed.lookup?_eq_none_iff]
  intro key hKey hMatched
  cases hBound : Registry.builtins.bound key with
  | none => rfl
  | some handler =>
      cases handler with
      | builtin builtin =>
          obtain ⟨spelling, hMem, rfl⟩ := sound_builtins.builtin key builtin hBound
          exact absurd hMatched.isInfix (h (spelling, builtin) hMem)
      | user user => cases of_all_handlers handlers_builtins hBound

namespace Expand

/-- Each place of such a text is a literal character. -/
theorem outcome_block_unspelled (env : Env) {fuel : Nat} {s : ExpandState}
    (hRegistry : s.session.registry = .builtins) (hText : Builtin.Unspelled s.rest)
    (hFuel : s.rest.length < fuel) :
    ∃ output last, outcome (block env fuel none "") s = (.ok output, last) ∧
      output.toList ++ last.engine.close.1.toList = s.engine.written s.rest := by
  generalize hRest : s.rest = text at hText hFuel
  induction text generalizing s fuel with
  | nil =>
      obtain ⟨fuel, rfl⟩ : ∃ more, fuel = more + 1 := Nat.exists_eq_add_one.mpr hFuel
      exact ⟨"", s, outcome_block_atEnd env fuel "" hRest, rfl⟩
  | cons c text ih =>
      obtain ⟨fuel, rfl⟩ : ∃ more, fuel = more + 1 :=
        Nat.exists_eq_add_one.mpr (Nat.zero_lt_of_lt hFuel)
      have hPlace : outcome (place env (blockReader env fuel) fuel) s = outcome (literal c) s := by
        rw [outcome_place env _ fuel hRest, hRegistry,
          Registry.lookup?_builtins_of_unspelled hText]
      have hMore : Builtin.Unspelled text :=
        fun entry hMem hInside => hText entry hMem (hInside.trans (List.suffix_cons c text).isInfix)
      have hBehind : ((s.withEngine (s.engine.process c).2).advance 1).rest = text :=
        rest_behindBlank hRest _
      have hSame : ((s.withEngine (s.engine.process c).2).advance 1).session.registry = .builtins :=
        hRegistry
      obtain ⟨output, last, hBlock, hWritten⟩ := ih hSame hBehind hMore
        (Nat.lt_of_succ_lt_succ hFuel)
      refine ⟨(s.engine.process c).1 ++ output, last, ?_, ?_⟩
      · exact outcome_blockReader_then (by simp [hRest]) (not_endsAt_none _) hPlace hBlock
      · rw [String.toList_append, List.append_assoc, hWritten]
        rfl

/-- A document in which no builtin is spelled comes to its paragraphs: it is cut at the runs
of spaces and line breaks that hold two line breaks or more, and each piece that has words is
written between the markers with single spaces between its words. -/
theorem plain_text_laid_out (env : Env) {session : Session}
    (hRegistry : session.registry = .builtins) (target : Target) (file path : String)
    {text : String} (hText : Builtin.Unspelled text.toList) {fuel : Nat}
    (hFuel : text.toList.length < fuel) :
    (∃ last, outcome (expandDocument env fuel)
        ⟨session, DocumentState.start file path text target⟩ =
          (.ok (String.ofList (laidOut target text.toList)), last)) ∧
      (∀ before after, Text.Spacing before → Text.Spacing after →
        laidOut target (before ++ text.toList ++ after) = laidOut target text.toList) ∧
      (Text.Spacing text.toList → laidOut target text.toList = []) := by
  refine ⟨?_, fun before after hBefore hAfter => laidOut_surrounded target hBefore hAfter _,
    laidOut_spacing target⟩
  generalize hStart : ExpandState.mk session (DocumentState.start file path text target) = start
  have hRest : start.rest = text.toList := hStart ▸ rfl
  have hEngine : start.engine = AutoBreak.ofTarget target := hStart ▸ rfl
  obtain ⟨output, last, hBlock, hWritten⟩ := outcome_block_unspelled env
    (show start.session.registry = .builtins from hStart ▸ hRegistry) (hRest ▸ hText)
    (hRest ▸ hFuel)
  rw [hRest, hEngine, written_eq_laidOut] at hWritten
  unfold expandDocument blockReader
  rw [outcome_wholeDocument, hBlock, ← hWritten]
  refine ⟨last.withEngine last.engine.close.2, ?_⟩
  dsimp only
  rw [String.ofList_append, String.ofList_toList, String.ofList_toList]

/-- Two paragraphs, with a break of a row in the first, with a tab and a carriage return as
visible characters, and with spacing on all sides. -/
def spaced : String :=
  "\n \n a  b\n\tc \n\n\n d\r\n  "

theorem plain_text_laid_out_spaced :
    Builtin.Unspelled spaced.toList ∧ spaced.toList.length < 40 ∧
    ∃ last, outcome (expandDocument plainEnv 40)
        ⟨.ofRegistry .builtins, DocumentState.start "<string>" "" spaced .web⟩ =
      (.ok "\n<p>a b \tc</p>\n\n<p>d\r</p>\n", last) := by
  have hText : Builtin.Unspelled spaced.toList := by decide +kernel
  have hFuel : spaced.toList.length < 40 := by decide +kernel
  have hRegistry : (Session.ofRegistry .builtins).registry = .builtins := rfl
  obtain ⟨last, hRun⟩ :=
    (plain_text_laid_out plainEnv hRegistry .web "<string>" "" hText hFuel).1
  have hLaidOut : String.ofList (laidOut .web spaced.toList) =
      "\n<p>a b \tc</p>\n\n<p>d\r</p>\n" := by
    decide +kernel
  rw [hLaidOut] at hRun
  exact ⟨hText, hFuel, last, hRun⟩

end Expand

end MacroMarkup
