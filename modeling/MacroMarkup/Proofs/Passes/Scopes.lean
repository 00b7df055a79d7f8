import MacroMarkup.Proofs.Passes.Engine
import MacroMarkup.Proofs.Passes.Within
import MacroMarkup.Proofs.Passes.Word

/-! Three passes side by side: one reads a document directly for some target, one
normalizes it, and one reads the normalized text for the target. This is about the
scopes that invocations read. -/
namespace MacroMarkup

/-- The handlers that change neither the registry nor the paragraph. -/
def Handler.rendering : Handler → Bool
  | .builtin .usePackage => false
  | .builtin .newCommand => false
  | .builtin .newEnvironment => false
  | .builtin .paragraph => false
  | _ => true

namespace ExpandState

/-- The state in the normalizing pass, where so many invocations fired. -/
def normalizing (s : ExpandState) (executed : Nat) : ExpandState :=
  s.update fun document =>
    { document with executed, target := .normalize, autobreak := document.autobreak.normalizing }

/-- The word that comes next, where no blank is pending before it. -/
def ahead (s : ExpandState) : List Char :=
  if s.engine.gap = [] then Text.word s.rest else []

end ExpandState

namespace Expand

/-- A state of the last pass with the given engine. It reads another text than the
direct pass, on the same level. -/
structure Counterpart (engine : AutoBreak) (s m : ExpandState) : Prop where
  session : m.session = s.session
  depth : m.document.depth = s.document.depth
  target : m.document.target = s.document.target
  engine : m.engine = engine

/-- The last pass has nothing pending: in its text the blanks are still to come. -/
abbrev InStep (s m : ExpandState) : Prop :=
  Counterpart s.engine.clearPending s m

structure Passing (s : ExpandState) : Prop where
  built : s.session.registry.Built
  deferring : s.session.registry.Deferring
  orderly : s.engine.Orderly

/-- What the direct pass leaves as it was. -/
structure Remains (s s' : ExpandState) : Prop where
  session : s'.session = s.session
  depth : s'.document.depth = s.document.depth
  target : s'.document.target = s.document.target
  enabled : s'.engine.enabled = s.engine.enabled
  opened : s.engine.opened = true → s'.engine.opened = true
  orderly : s'.engine.Orderly

variable {env : Env} {fuel : Nat} {s s' s'' m m' : ExpandState}

theorem Remains.refl (h : s.engine.Orderly) : Remains s s :=
  ⟨rfl, rfl, rfl, rfl, id, h⟩

theorem Remains.trans (h : Remains s s') (h' : Remains s' s'') : Remains s s'' where
  session := h'.session.trans h.session
  depth := h'.depth.trans h.depth
  target := h'.target.trans h.target
  enabled := h'.enabled.trans h.enabled
  opened hOpened := h'.opened (h.opened hOpened)
  orderly := h'.orderly

theorem Passing.later (h : Passing s) (hRemains : Remains s s') : Passing s' := by
  obtain ⟨hBuilt, hDeferring, -⟩ := h
  refine ⟨?_, ?_, hRemains.orderly⟩ <;> rw [hRemains.session] <;> assumption

/-- A chain of places inside of a block, with fuel enough for each. -/
inductive Reads (env : Env) : ExpandState → String → ExpandState → Prop where
  | refl (s : ExpandState) : Reads env s "" s
  | place {s middle s' : ExpandState} {fuel : Nat} {c : Char} {text : List Char}
      {piece out : String} : s.rest = c :: text → c ≠ '\x7d' →
      outcome (place env (blockReader env fuel) fuel) s = (.ok piece, middle) →
      Reads env middle out s' → Reads env s (piece ++ out) s'

/-- Texts are read one after the other. -/
theorem Reads.trans {out out' : String} (h : Reads env s out s') (h' : Reads env s' out' s'') :
    Reads env s (out ++ out') s'' := by
  induction h with
  | refl s => rwa [String.empty_append]
  | place hRest hBrace hPlace _ ih =>
      rw [String.append_assoc]
      exact .place hRest hBrace hPlace (ih h')

/-- A block that ends behind a chain of places. The fuel of all places is taken
together. -/
theorem Reads.block {out : String} {marker? : Option (List Char)} {last : ExpandState}
    (h : Reads env s out s') (hMarker : marker? = none ∨ marker? = some ['\x7d'])
    (hEnd : ∃ fuel, outcome (blockReader env fuel marker?) s' = (.ok "", last)) :
    ∃ fuel, outcome (blockReader env fuel marker?) s = (.ok out, last) := by
  induction h with
  | refl s => exact hEnd
  | @place s middle s' fuel c text piece out hRest hBrace hPlace _ ih =>
      obtain ⟨fuel', hAfter⟩ := ih hEnd
      have hEnds : ¬ endsAt marker? s.rest := by
        rcases hMarker with rfl | rfl
        · exact not_endsAt_none _
        · rw [hRest, endsAt_single]
          exact fun h => hBrace h.symm
      have hLe := Nat.le_max_left fuel fuel'
      have hPlace' := (Below.place (blockReader_below env hLe) env hLe).ok hPlace
      have hAfter' := (blockReader_below env (Nat.le_max_right fuel fuel') marker?).ok hAfter
      exact ⟨_, outcome_blockReader_then (by simp [hRest]) hEnds hPlace' hAfter'⟩

/-- Blanks are read without any output. -/
theorem Reads.blanks (env : Env) {blanks after : List Char} (hBlanks : Text.Spacing blanks)
    (hBuilt : s.session.registry.Built) (hRest : s.rest = blanks ++ after) :
    Reads env s "" ((s.withEngine (s.engine.behindBlanks blanks)).advance blanks.length) := by
  induction blanks generalizing s with
  | nil =>
      rw [AutoBreak.behindBlanks_nil]
      exact .refl s
  | cons b blanks ih =>
      have hBlank := hBlanks b (by simp)
      have hBrace : b ≠ '\x7d' := by rcases hBlank with rfl | rfl <;> decide
      have hPlace := outcome_place_blank env (blockReader env 0) 0 hBlank hRest hBuilt
      have hInner := ih (s := (s.withEngine (s.engine.behindBlanks [b])).advance 1)
        (fun c hMem => hBlanks c (List.mem_cons_of_mem b hMem)) hBuilt (rest_behindBlank hRest _)
      have hReads := Reads.place hRest hBrace hPlace hInner
      rw [String.empty_append] at hReads
      have hEngine := AutoBreak.behindBlanks_cons b blanks s.engine
      have hState : ((((s.withEngine (s.engine.behindBlanks [b])).advance 1).withEngine
          ((s.engine.behindBlanks [b]).behindBlanks blanks)).advance blanks.length) =
            (s.withEngine (s.engine.behindBlanks (b :: blanks))).advance (b :: blanks).length := by
        rw [hEngine]
        change ((s.withEngine (s.engine.behindBlanks (b :: blanks))).advance 1).advance
          blanks.length = _
        rw [ExpandState.advance_advance, Nat.add_comm 1]
        rfl
      rwa [← hState]

theorem rest_behindBlanks {blanks text : List Char} (hRest : s.rest = blanks ++ text)
    (engine : AutoBreak) : ((s.withEngine engine).advance blanks.length).rest = text := by
  rw [ExpandState.rest_advance]
  change s.rest.drop blanks.length = text
  rw [hRest, List.drop_left]

/-- A place behind blanks is read after they are. -/
theorem Reads.behindBlanks {blanks text : List Char} {c : Char} {piece : String}
    (hBlanks : Text.Spacing blanks) (hBuilt : s.session.registry.Built)
    (hRest : s.rest = blanks ++ c :: text) (hBrace : c ≠ '\x7d')
    (hPlace : outcome (Expand.place env (blockReader env fuel) fuel)
      ((s.withEngine (s.engine.behindBlanks blanks)).advance blanks.length) = (.ok piece, s')) :
    Reads env s piece s' := by
  have hReads := (Reads.blanks env hBlanks hBuilt hRest).trans
    (.place (rest_behindBlanks hRest _) hBrace hPlace (.refl s'))
  rwa [String.empty_append, String.append_empty] at hReads

/-- A scope that a chain of places fills up to its end. -/
theorem Reads.scope {text tail : List Char} {out : String} (hText : m.rest = '\x7b' :: text)
    (hDepth : m.document.depth + 1 ≤ env.options.maxDepth) (hReads : Reads env (m.entered 1) out m')
    (hTail : m'.rest = '\x7d' :: tail) : ∃ fuel, outcome (parsedScope env (blockReader env fuel)) m =
      (.ok out, (m'.advance 1).withDepth (m'.document.depth - 1)) := by
  obtain ⟨fuel, hBlock⟩ := hReads.block (.inr rfl) ⟨1, outcome_block_scopeEnd env 0 "" hTail⟩
  refine ⟨fuel, ?_⟩
  rw [outcome_parsedScope hText hDepth, hBlock]
  rfl

/-- Arguments that are read one behind the other, with fuel enough for each. -/
theorem mapM_argument_cons {flag : Bool} {flags : List Bool} {value : String} {values : List String}
    {fuel fuel' : Nat}
    (hFirst : outcome (argument env (blockReader env fuel) flag) s = (.ok value, m))
    (hOthers : outcome (flags.mapM (argument env (blockReader env fuel'))) m = (.ok values, m')) :
    outcome ((flag :: flags).mapM (argument env (blockReader env (max fuel fuel')))) s =
      (.ok (value :: values), m') := by
  have hFirst' := (Below.argument (blockReader_below env (Nat.le_max_left fuel fuel')) env flag).ok hFirst
  have hOthers' := (Below.mapM_argument (blockReader_below env (Nat.le_max_right fuel fuel')) env
    flags).ok hOthers
  rw [List.mapM_cons, outcome_bind_of_ok hFirst', outcome_bind_of_ok hOthers']
  rfl

/-- What the normalizing pass writes for a block comes to the same in the last pass,
and starts with no more of a word than the block itself. -/
structure Rewritten (env : Env) (fuel : Nat) (marker? : Option (List Char)) (s : ExpandState)
    (out : String) (s' : ExpandState) (written : String) : Prop where
  normal : ∀ executed, ∃ executed', outcome (blockReader env fuel marker?) (s.normalizing executed) =
    (.ok written, s'.normalizing executed')
  word : s.engine.opened = true → Text.word written.toList <+: s.ahead
  again : ∀ {m : ExpandState} {tail : List Char}, InStep s m → m.rest = written.toList ++ tail →
    Text.word tail = [] → ∃ m', Reads env m out m' ∧ InStep s' m' ∧ m'.rest = tail

def BlocksRewritten (env : Env) (fuel : Nat) : Prop :=
  ∀ {marker? : Option (List Char)} {s s' : ExpandState} {out : String},
    marker? = none ∨ marker? = some ['\x7d'] → Passing s →
    outcome (blockWithin Handler.rendering env fuel marker?) s = (.ok out, s') →
    Remains s s' ∧ ∃ written, Rewritten env fuel marker? s out s' written

/-- The same for a part of an invocation, which is written as `text`. -/
structure Respelled {α β : Type} (normal : Expand β) (again : Nat → Expand α) (s : ExpandState)
    (a : α) (s' : ExpandState) (b : β) (text : List Char) : Prop where
  normal : ∀ executed, ∃ executed', outcome normal (s.normalizing executed) =
    (.ok b, s'.normalizing executed')
  again : ∀ {m : ExpandState} {tail : List Char}, InStep s m → m.rest = text ++ tail →
    ∃ fuel m', outcome (again fuel) m = (.ok a, m') ∧ InStep s' m' ∧ m'.rest = tail

/-- A verbatim scope is rewritten as it is. -/
theorem verbatimScope_respelled (hs : Passing s) {value : String}
    (h : outcome verbatimScope s = (.ok value, s')) :
    Remains s s' ∧ Respelled verbatimScope (fun _ => verbatimScope) s value s' value
      (Spelling.braced value).toList := by
  obtain ⟨after, hRest, hContent, rfl⟩ := verbatimScope_ok h
  refine ⟨⟨rfl, rfl, rfl, rfl, id, hs.orderly⟩, fun executed => ⟨executed, ?_⟩, ?_⟩
  · have hNormal := outcome_verbatimScope (s := s.normalizing executed) hRest hContent
    rwa [String.ofList_toList] at hNormal
  · intro m tail hStep hText
    rw [toList_braced, List.cons_append, List.append_assoc] at hText
    have hAgain := outcome_verbatimScope hText hContent
    rw [String.ofList_toList] at hAgain
    refine ⟨0, _, hAgain, ⟨hStep.session, hStep.depth, hStep.target, hStep.engine⟩, ?_⟩
    rw [m.rest_advance, hText]
    simp

/-- A scope that is expanded is written with its contents normalized. -/
theorem parsedScope_respelled (hBlocks : BlocksRewritten env fuel) (hs : Passing s) {value : String}
    (h : outcome (parsedScope env (blockWithin Handler.rendering env fuel)) s = (.ok value, s')) :
    Remains s s' ∧ ∃ written, Respelled (parsedScope env (blockReader env fuel))
      (fun fuel => parsedScope env (blockReader env fuel)) s value s' written
        (Spelling.braced written).toList := by
  obtain ⟨hDepth, text, middle, hRest, hBlock, rfl⟩ := parsedScope_ok h
  have hEntered : Passing (s.entered 1) := ⟨hs.built, hs.deferring, hs.orderly⟩
  obtain ⟨hRemains, written, hWritten⟩ := hBlocks (.inr rfl) hEntered hBlock
  have hLevel : middle.document.depth - 1 = s.document.depth := by
    rw [hRemains.depth]
    rfl
  refine ⟨⟨hRemains.session, hLevel, hRemains.target, hRemains.enabled, hRemains.opened,
    hRemains.orderly⟩, written, fun executed => ?_, ?_⟩
  · obtain ⟨executed', hNormal⟩ := hWritten.normal executed
    refine ⟨executed', ?_⟩
    have hStart : (s.normalizing executed).entered 1 = (s.entered 1).normalizing executed := rfl
    rw [outcome_parsedScope (s := s.normalizing executed) hRest hDepth, hStart, hNormal]
    rfl
  · intro m tail hStep hText
    rw [toList_braced, List.cons_append, List.append_assoc] at hText
    have hInner : (m.entered 1).rest = written.toList ++ '\x7d' :: tail :=
      ExpandState.rest_advance_one hText
    have hStart : InStep (s.entered 1) (m.entered 1) :=
      ⟨hStep.session, congrArg (· + 1) hStep.depth, hStep.target, hStep.engine⟩
    obtain ⟨m', hReads, hLast, hTail⟩ := hWritten.again hStart hInner (Text.word_cons_of_not rfl tail)
    obtain ⟨fuel', hAgain⟩ := hReads.scope hText (by rw [hStep.depth]; exact hDepth) hTail
    exact ⟨fuel', _, hAgain, ⟨hLast.session, congrArg (· - 1) hLast.depth, hLast.target, hLast.engine⟩,
      ExpandState.rest_advance_one hTail⟩

/-- A scope of either kind is rewritten as a scope. -/
theorem argument_respelled (hBlocks : BlocksRewritten env fuel) (hs : Passing s) {flag : Bool}
    {value : String}
    (h : outcome (argument env (blockWithin Handler.rendering env fuel) flag) s =
      (.ok value, s')) :
    Remains s s' ∧ ∃ written, Respelled (argument env (blockReader env fuel) flag)
      (fun fuel => argument env (blockReader env fuel) flag) s value s' written
        (Spelling.braced written).toList := by
  cases flag with
  | true =>
      obtain ⟨hRemains, hRespelled⟩ := verbatimScope_respelled hs h
      exact ⟨hRemains, value, hRespelled⟩
  | false => exact parsedScope_respelled hBlocks hs h

/-- The scopes of an invocation are written one behind the other. -/
theorem arguments_respelled (hBlocks : BlocksRewritten env fuel) (hs : Passing s) {flags : List Bool}
    {values : List String}
    (h : outcome (flags.mapM (argument env (blockWithin Handler.rendering env fuel))) s =
      (.ok values, s')) :
    Remains s s' ∧ ∃ written, written.length = flags.length ∧
      Respelled (flags.mapM (argument env (blockReader env fuel)))
        (fun fuel => flags.mapM (argument env (blockReader env fuel))) s values s' written
          (String.join (written.map Spelling.braced)).toList := by
  induction flags generalizing s values with
  | nil =>
      cases h
      refine ⟨.refl hs.orderly, [], rfl, fun executed => ⟨executed, rfl⟩, ?_⟩
      intro m tail hStep hText
      exact ⟨0, m, rfl, hStep, hText⟩
  | cons flag flags ih =>
      rw [List.mapM_cons] at h
      obtain ⟨value, middle, hFirst, hRest⟩ := outcome_bind_ok h
      obtain ⟨others, last, hOthers, hPure⟩ := outcome_bind_ok hRest
      cases hPure
      obtain ⟨hRemains, first, hRespelled⟩ := argument_respelled hBlocks hs hFirst
      obtain ⟨hRemains', more, hLength, hRespelled'⟩ := ih (hs.later hRemains) hOthers
      refine ⟨hRemains.trans hRemains', first :: more, congrArg (· + 1) hLength, fun executed => ?_, ?_⟩
      · obtain ⟨executed', hNormal⟩ := hRespelled.normal executed
        obtain ⟨executed'', hNormal'⟩ := hRespelled'.normal executed'
        refine ⟨executed'', ?_⟩
        rw [List.mapM_cons, outcome_bind_of_ok hNormal, outcome_bind_of_ok hNormal']
        rfl
      · intro m tail hStep hText
        rw [List.map_cons, String.join_cons, String.toList_append, List.append_assoc] at hText
        obtain ⟨fuel₁, middle', hAgain, hMiddle, hText'⟩ := hRespelled.again hStep hText
        obtain ⟨fuel₂, m', hAgain', hLast, hTail⟩ := hRespelled'.again hMiddle hText'
        exact ⟨max fuel₁ fuel₂, m', mapM_argument_cons hAgain hAgain', hLast, hTail⟩

end Expand

end MacroMarkup
