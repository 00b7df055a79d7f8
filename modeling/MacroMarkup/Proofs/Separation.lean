import MacroMarkup.Proofs.Expand.Run
import MacroMarkup.Proofs.Registry.Match

/-! Whether items that blanks separate in a source stay separate in the
normalized text. -/
namespace MacroMarkup

/-- A space or a line break stands somewhere in the text. -/
def HasSpacing (text : String) : Prop :=
  ∃ c ∈ text.toList, c = ' ' ∨ c = '\n'

namespace AutoBreak

/-- An engine of the normalizing pass in front of an item, behind blanks. -/
structure Facing (engine : AutoBreak) : Prop where
  enabled : engine.enabled = true
  beginMarker : engine.beginMarker = ""
  endMarker : engine.endMarker = "\n\n"
  pending : engine.opened = true → engine.pendingSpace = true

/-- Blanks become a separator in an open paragraph, unless they end it and it
owes no end marker. -/
def Separating (engine : AutoBreak) : Prop :=
  engine.opened = true ∧ (engine.begun = true ∨ engine.pendingBreaks < 2)

theorem hasSpacing_empty : ¬ HasSpacing "" := by
  rintro ⟨c, hMem, -⟩
  simp at hMem

theorem hasSpacing_space : HasSpacing " " :=
  ⟨' ', by simp, .inl rfl⟩

/-- The boundary of a paragraph is spacing. -/
theorem hasSpacing_endMarker : HasSpacing "\n\n" :=
  ⟨'\n', by simp, .inr rfl⟩

variable {engine : AutoBreak}

/-- The first character behind blanks is written behind spacing just where the engine
separates. -/
theorem Facing.processVisible (h : engine.Facing) (c : Char) :
    ∃ gap, (engine.processVisible c).1 = gap ++ String.singleton c ∧
      (HasSpacing gap ↔ engine.Separating) := by
  unfold AutoBreak.processVisible Separating
  by_cases hOpened : engine.opened
  · by_cases hBreaks : engine.pendingBreaks < 2
    · refine ⟨" ", ?_, ?_⟩
      · simp [hOpened, h.pending hOpened, hBreaks]
      · simp [hasSpacing_space, hOpened, hBreaks]
    · have hPositive : 0 < engine.pendingBreaks := by omega
      cases hBegun : engine.begun
      · refine ⟨"", ?_, ?_⟩
        · simp [hOpened, hBreaks, h.enabled, h.beginMarker, hPositive]
        · simp [hasSpacing_empty, hBreaks]
      · refine ⟨"\n\n", ?_, ?_⟩
        · simp [hOpened, hBreaks, h.enabled, h.beginMarker, h.endMarker, hPositive]
        · simp [hasSpacing_endMarker, hOpened]
  · refine ⟨"", ?_, ?_⟩
    · simp [hOpened, h.enabled, h.beginMarker]
    · simp [hasSpacing_empty, hOpened]

theorem Facing.settle (h : engine.Facing) (policy : BreakPolicy) :
    HasSpacing (engine.settle policy).1 ↔ engine.Separating := by
  have hEnabled := h.enabled
  have hBegin := h.beginMarker
  have hEnd := h.endMarker
  unfold AutoBreak.settle AutoBreak.flush Separating
  by_cases hOpened : engine.opened
  · have hPending := h.pending hOpened
    by_cases hBreaks : engine.pendingBreaks < 2
    · have hFew : ¬ 2 ≤ engine.pendingBreaks := Nat.not_le.mpr hBreaks
      have hSpace : HasSpacing (" " ++ if engine.begun then "\n\n" else "") := ⟨' ', by simp, .inl rfl⟩
      cases policy <;>
        simp [hOpened, hPending, hBreaks, hFew, AutoBreak.close, AutoBreak.ensureOpen, clearPending, hEnd,
          hasSpacing_space, hSpace]
    · cases hBegun : engine.begun <;> cases policy <;>
        simp [hOpened, hBreaks, hBegun, AutoBreak.close, AutoBreak.ensureOpen, AutoBreak.start,
          clearPending, hEnabled, hBegin, hEnd, Nat.le_of_not_lt hBreaks, hasSpacing_empty,
          hasSpacing_endMarker]
  · cases policy <;>
      simp [hOpened, AutoBreak.close, AutoBreak.ensureOpen, AutoBreak.start, hEnabled, hBegin,
        hasSpacing_empty]

/-- Behind blanks an enabled engine of the normalizing pass faces its next text. -/
theorem facing_behindBlanks (hCounted : engine.Counted) (hEnabled : engine.enabled = true)
    (hBegin : engine.beginMarker = "") (hEnd : engine.endMarker = "\n\n") {blanks : List Char}
    (hBlanks : blanks ≠ []) : (engine.behindBlanks blanks).Facing := by
  have hSome : blanks.isEmpty = false := by
    rw [List.isEmpty_eq_false_iff]
    exact hBlanks
  unfold behindBlanks
  by_cases hOpened : engine.opened
  · rw [if_pos hOpened]
    refine ⟨hEnabled, hBegin, hEnd, fun _ => ?_⟩
    by_cases hBreaks : engine.pendingBreaks = 0
    · simp [hSome, hBreaks]
    · simp [hCounted hBreaks]
  · rw [if_neg hOpened]
    exact ⟨hEnabled, hBegin, hEnd, fun h => absurd h hOpened⟩

/-- It separates inside of a paragraph that is begun, and in any other one where the blanks
are no boundary. -/
theorem separating_behindBlanks (engine : AutoBreak) (blanks : List Char) :
    (engine.behindBlanks blanks).Separating ↔
      engine.opened = true ∧
        (engine.begun = true ∨ engine.pendingBreaks + blanks.count '\n' < 2) := by
  unfold behindBlanks Separating
  by_cases hOpened : engine.opened <;> simp [hOpened]

/-- A visible character comes last in what is emitted for it. -/
theorem processVisible_ends (c : Char) (engine : AutoBreak) :
    ∃ lead, (engine.processVisible c).1 = lead ++ String.singleton c := by
  unfold AutoBreak.processVisible
  split
  · split
    · exact ⟨_, rfl⟩
    · exact ⟨"", String.empty_append.symm⟩
  · split
    · exact ⟨_, rfl⟩
    · split
      · exact ⟨_, rfl⟩
      · exact ⟨"", String.empty_append.symm⟩

end AutoBreak

namespace Expand

/-- An item of the normalizing pass and the text that it contributes: a visible
literal character, or an invocation that fires and expands to some text. -/
inductive Item (env : Env) (fuel : Nat) (s : ExpandState) : String → Prop where
  | visible {c : Char} {text : List Char} : s.rest = c :: text →
      s.session.registry.lookup? (c :: text) = none → c ≠ ' ' → c ≠ '\n' →
      Item env fuel s (String.singleton c)
  | fired {c : Char} {text : List Char} {length : Nat} {user : UserMacro}
      {args : CallArgs × Bool} {middle last : ExpandState} {expanded : String} :
      s.rest = c :: text → s.session.registry.lookup? (c :: text) = some (length, .user user) →
      user.signature.mode = .normalize →
      outcome (callArgs env (blockReader env fuel) user (s.entered length).document.reader.indent)
        (s.calling length (s.engine.settle user.signature.policy).2) = (.ok args, middle) →
      outcome (evaluate env (blockReader env fuel) fuel user args.1.values)
        (middle.resume (s.engine.settle user.signature.policy).2.enabled) = (.ok expanded, last) →
      expanded ≠ "" → Item env fuel s expanded

variable {env : Env} {fuel fuel' : Nat} {s s' : ExpandState}

/-- What a place emits for an item is what the item contributes, behind what the
paragraph engine puts there. -/
theorem Item.lead {core piece : String} (hItem : Item env fuel s core)
    (hTarget : s.document.target = .normalize)
    (hPlace : outcome (place env (blockReader env fuel) fuel) s = (.ok piece, s')) :
    ∃ lead, piece = lead ++ core ∧
      ((∃ c, (s.engine.processVisible c).1 = lead ++ String.singleton c) ∨
        ∃ policy, (s.engine.settle policy).1 = lead) := by
  cases hItem with
  | @visible c text hRest hLookup hSpace hBreak =>
      rw [outcome_place env _ fuel hRest, hLookup] at hPlace
      dsimp only at hPlace
      rw [outcome_literal, Prod.mk.injEq] at hPlace
      have hPiece : (s.engine.process c).1 = piece := Except.ok.inj hPlace.1
      rw [AutoBreak.process, if_neg hSpace, if_neg hBreak] at hPiece
      obtain ⟨lead, hLead⟩ := AutoBreak.processVisible_ends c s.engine
      exact ⟨lead, hPiece.symm.trans hLead, .inl ⟨c, hLead⟩⟩
  | @fired c text length user args middle last expanded hRest hLookup hMode hArgs hEvaluate =>
      refine ⟨(s.engine.settle user.signature.policy).1, ?_, .inr ⟨_, rfl⟩⟩
      rw [outcome_place env _ fuel hRest, hLookup] at hPlace
      obtain ⟨-, expansion, after, hHandler, rfl, -⟩ := dispatch_ok hPlace
      have hMiddle : middle.document.target = .normalize :=
        ((onward.callArgs env (onward.block env fuel · "") user _).ok hArgs).target.trans hTarget
      have hApplies : user.signature.mode.appliesTo middle.document.target := by
        rw [hMode, hMiddle]
        rfl
      have hEngine : (s.entered length).engine = s.engine := rfl
      unfold runHandler at hHandler
      dsimp only at hHandler
      rw [outcome_invoke user _ hArgs, if_pos hApplies, hEngine, hEvaluate] at hHandler
      cases hHandler
      rfl

/-- Blanks emit nothing, wherever they stand. -/
theorem Steps.blanks {out : String} (h : Steps env fuel s out fuel' s')
    (hBuilt : s.session.registry.Built) {blanks : List Char} (hBlanks : Text.Spacing blanks)
    (hRest : s.rest = blanks ++ s'.rest) :
    out = "" ∧ s'.engine = s.engine.behindBlanks blanks := by
  induction h generalizing blanks with
  | refl fuel s =>
      have hNil : blanks = [] := List.append_left_eq_self.mp hRest.symm
      rw [hNil, AutoBreak.behindBlanks_nil]
      exact ⟨rfl, rfl⟩
  | @place fuel fuel' s middle s' piece out hSome hPlace hSteps ih =>
      cases blanks with
      | nil =>
          have hShorter := place_consumes hBuilt.wellFormed hSome hPlace
          have hSuffix := (hSteps.keeps onward).rest.length_le
          rw [hRest, List.nil_append] at hShorter
          omega
      | cons b blanks =>
          have hBlank := hBlanks b (by simp)
          rw [outcome_place_blank env _ fuel hBlank hRest hBuilt, Prod.mk.injEq] at hPlace
          obtain ⟨hPiece, rfl⟩ := hPlace
          obtain ⟨rfl, hEngine⟩ := ih hBuilt
            (fun c hMem => hBlanks c (List.mem_cons_of_mem b hMem)) (rest_behindBlank hRest _)
          refine ⟨?_, ?_⟩
          · rw [← Except.ok.inj hPiece]
            rfl
          · rw [hEngine]
            exact AutoBreak.behindBlanks_cons b blanks s.engine

/-- Two items of a document, in the order of the run, with nothing but blanks
between them. `left` and `left'` are what is left of the fuel at each of them. -/
structure Neighbours (env : Env) (fuel : Nat) (start : ExpandState) where
  before : String
  left : Nat
  atFirst : ExpandState
  reached : Steps env fuel start before (left + 1) atFirst
  first : String
  firstItem : Item env left atFirst first
  piece : String
  behind : ExpandState
  firstRead : outcome (place env (blockReader env left) left) atFirst = (.ok piece, behind)
  blanks : List Char
  spacing : Text.Spacing blanks
  notAdjacent : blanks ≠ []
  between : String
  left' : Nat
  atSecond : ExpandState
  passed : Steps env left behind between (left' + 1) atSecond
  blanksRead : behind.rest = blanks ++ atSecond.rest
  second : String
  secondItem : Item env left' atSecond second

/-- An item takes some text. -/
theorem Item.rest_ne_nil {core : String} (h : Item env fuel s core) : s.rest ≠ [] := by
  cases h with
  | visible hRest => rw [hRest]; simp
  | fired hRest => rw [hRest]; simp

/-- What stands between the contributions of two neighbours in the normalized
text. It holds a space or a line break if and only if the first of them leaves a
paragraph open that either owes an end marker or is not ended by the line breaks
that are pending, those that the first left and those between the two. -/
theorem neighbours_separated_iff (env : Env) {fuel : Nat} {start last : ExpandState}
    {normalized : String} (hBuilt : start.session.registry.Built)
    (hStart : ∃ file path text, start.document = DocumentState.start file path text .normalize)
    (hRun : outcome (expandDocument env fuel) start = (.ok normalized, last))
    (pair : Neighbours env fuel start) :
    ∃ lead gap tail, pair.piece = lead ++ pair.first ∧
      (outcome (place env (blockReader env pair.left') pair.left') pair.atSecond).1 =
        .ok (gap ++ pair.second) ∧
      normalized = pair.before ++ (lead ++ pair.first) ++ (gap ++ pair.second) ++ tail ∧
      (HasSpacing gap ↔ pair.behind.engine.opened = true ∧ (pair.behind.engine.begun = true ∨
        pair.behind.engine.pendingBreaks + pair.blanks.count '\n' < 2)) := by
  obtain ⟨file, path, text, hDocument⟩ := hStart
  have hEngine : start.engine = AutoBreak.ofTarget .normalize := congrArg (·.autobreak) hDocument
  have hTarget : start.document.target = .normalize := congrArg (·.target) hDocument
  have hCounted : start.engine.Counted := by
    rw [hEngine]
    exact AutoBreak.counted_ofTarget _
  -- the first item ends in the state `behind`, the one step behind where it stands
  have hSteps : Steps env fuel start (pair.before ++ (pair.piece ++ "")) pair.left pair.behind :=
    pair.reached.trans (.place pair.firstItem.rest_ne_nil pair.firstRead (.refl _ _))
  rw [String.append_empty] at hSteps
  have hOnward := hSteps.keeps onward
  obtain ⟨hBetween, hBlanks⟩ := pair.passed.blanks ((hSteps.keeps grown) hBuilt).1
    pair.spacing pair.blanksRead
  obtain ⟨lead, hLead, -⟩ := pair.firstItem.lead
    ((pair.reached.keeps onward).target.trans hTarget) pair.firstRead
  have hReached := hSteps.trans pair.passed
  rw [hBetween, String.append_empty] at hReached
  obtain ⟨piece, middle, tail, hSecond, hText⟩ :=
    hReached.expandDocument_ok pair.secondItem.rest_ne_nil hRun
  obtain ⟨gap, hGap, hEither⟩ := pair.secondItem.lead
    ((hReached.keeps onward).target.trans hTarget) hSecond
  have hFacing : pair.atSecond.engine.Facing := by
    rw [hBlanks]
    refine AutoBreak.facing_behindBlanks ((hSteps.keeps keepsCounted) hCounted) ?_ ?_ ?_
      pair.notAdjacent
    · rw [hOnward.enabled, hEngine]
      rfl
    · rw [hOnward.beginMarker, hEngine]
      rfl
    · rw [hOnward.endMarker, hEngine]
      rfl
  refine ⟨lead, gap, tail, hLead, ?_, ?_, ?_⟩
  · rw [hSecond, hGap]
  · rw [hText, hLead, hGap]
  · rw [← AutoBreak.separating_behindBlanks, ← hBlanks]
    rcases hEither with ⟨c, hVisible⟩ | ⟨policy, hSettled⟩
    · obtain ⟨gap', hSame, hIff⟩ := hFacing.processVisible c
      have hCancel : gap = gap' := by
        rw [hVisible] at hSame
        have hLists := congrArg String.toList hSame
        rw [String.toList_append, String.toList_append] at hLists
        exact String.toList_injective (List.append_cancel_right hLists)
      rw [hCancel]
      exact hIff
    · rw [← hSettled]
      exact hFacing.settle policy

def reading (text : String) : ExpandState :=
  { session := Session.ofRegistry Registry.builtins
    document := DocumentState.start "<string>" "" text .normalize }

/-- A place, what it emits, and the state behind it. -/
abbrev Emits (fuel : Nat) (s : ExpandState) (piece : String) (s' : ExpandState) : Prop :=
  s.rest ≠ [] ∧ outcome (place plainEnv (blockReader plainEnv fuel) fuel) s = (.ok piece, s')

def walk (fuel : Nat) (start : ExpandState) : Nat → ExpandState
  | 0 => start
  | count + 1 =>
    (outcome (place plainEnv (blockReader plainEnv (fuel - count)) (fuel - count))
      (walk fuel start count)).2

/-- One more place behind others. -/
theorem Emits.then {start s s' : ExpandState} {before piece : String}
    (h : Steps plainEnv fuel start before (fuel' + 1) s) (hEmits : Emits fuel' s piece s') :
    Steps plainEnv fuel start (before ++ piece) fuel' s' := by
  have hPiece := h.trans (.place hEmits.1 hEmits.2 (.refl fuel' s'))
  rwa [String.append_empty] at hPiece

def letters : ExpandState :=
  reading "a b"

theorem letters_run : ∃ s₁ s₂, Emits 4 letters "a" s₁ ∧ Emits 3 s₁ "" s₂ ∧
    letters.rest = ['a', ' ', 'b'] ∧ s₁.rest = [' ', 'b'] ∧ s₂.rest = ['b'] ∧
    letters.session.registry.lookup? ['a', ' ', 'b'] = none ∧
    s₂.session.registry.lookup? ['b'] = none ∧
    s₁.engine.opened = true ∧ s₁.engine.pendingBreaks = 0 :=
  ⟨walk 4 letters 1, walk 4 letters 2, by decide +kernel⟩

theorem letters_expanded : (outcome (expandDocument plainEnv 5) letters).1 = .ok "a b\n\n" := by
  decide +kernel

theorem neighbours_separated_letters :
    ∃ pair : Neighbours plainEnv 5 letters, pair.first = "a" ∧ pair.second = "b" ∧
      ∃ lead gap tail, "a b\n\n" =
        pair.before ++ (lead ++ pair.first) ++ (gap ++ pair.second) ++ tail ∧ HasSpacing gap := by
  obtain ⟨s₁, s₂, hFirst, hBlank, hRest, hBetween, hLast, hLookup, hLookup', hOpened, hBreaks⟩ :=
    letters_run
  let pair : Neighbours plainEnv 5 letters := {
    before := ""
    left := 4
    atFirst := letters
    reached := .refl 5 letters
    first := "a"
    firstItem := .visible hRest hLookup (by decide) (by decide)
    piece := "a"
    behind := s₁
    firstRead := hFirst.2
    blanks := [' ']
    spacing := by decide
    notAdjacent := by simp
    between := "" ++ ""
    left' := 2
    atSecond := s₂
    passed := Emits.then (.refl 4 s₁) hBlank
    blanksRead := by rw [hBetween, hLast]; rfl
    second := "b"
    secondItem := .visible hLast hLookup' (by decide) (by decide) }
  have hRun : outcome (expandDocument plainEnv 5) letters = (.ok "a b\n\n", _) :=
    Prod.ext letters_expanded rfl
  obtain ⟨lead, gap, tail, -, -, hText, hIff⟩ :=
    neighbours_separated_iff plainEnv .builtins ⟨_, _, _, rfl⟩ hRun pair
  refine ⟨pair, rfl, rfl, lead, gap, tail, hText, hIff.mpr ⟨hOpened, .inr ?_⟩⟩
  change s₁.engine.pendingBreaks + [' '].count '\n' < 2
  rw [hBreaks]
  decide

/-- A macro that leaves the paragraph is called inside of an argument: the text
that follows is in a paragraph that owes no end marker. -/
def unowed : ExpandState :=
  reading ("\\newcommand\x7br: raw(); leaveblk\x7d\x7bX\x7d\n" ++
    "\\newcommand\x7bw: raw(x)\x7d\x7b#x\x7d\n\\w\x7b\\r x\x7dy\n\nb")

theorem unowed_run : ∃ s₁ s₂ s₃ s₄ s₅ s₆ s₇ s₈,
    Emits 29 unowed "" s₁ ∧ Emits 28 s₁ "" s₂ ∧ Emits 27 s₂ "" s₃ ∧ Emits 26 s₃ "" s₄ ∧
    Emits 25 s₄ "Xx" s₅ ∧ Emits 24 s₅ "y" s₆ ∧ Emits 23 s₆ "" s₇ ∧ Emits 22 s₇ "" s₈ ∧
    s₅.rest = ['y', '\n', '\n', 'b'] ∧ s₆.rest = ['\n', '\n', 'b'] ∧ s₈.rest = ['b'] ∧
    s₅.session.registry.lookup? ['y', '\n', '\n', 'b'] = none ∧
    s₈.session.registry.lookup? ['b'] = none :=
  ⟨walk 29 unowed 1, walk 29 unowed 2, walk 29 unowed 3, walk 29 unowed 4, walk 29 unowed 5,
    walk 29 unowed 6, walk 29 unowed 7, walk 29 unowed 8, by decide +kernel⟩

theorem unowed_expanded :
    (outcome (expandDocument plainEnv 30) unowed).1 = .ok "Xxyb\n\n" := by
  decide +kernel

/-- Two letters with a blank row between them are neighbours of the run, and no
blank stands between them in what it emits. -/
theorem neighbours_glued :
    ∃ pair : Neighbours plainEnv 30 unowed, pair.first = "y" ∧ pair.second = "b" ∧
      pair.blanks = ['\n', '\n'] ∧
      (outcome (expandDocument plainEnv 30) unowed).1 = .ok "Xxyb\n\n" ∧
      ∀ lead gap tail,
        "Xxyb\n\n" = pair.before ++ (lead ++ pair.first) ++ (gap ++ pair.second) ++ tail →
          ¬ HasSpacing gap := by
  obtain ⟨s₁, s₂, s₃, s₄, s₅, s₆, s₇, s₈, h₀, h₁, h₂, h₃, h₄, hFirst, h₆, h₇, hRest, hBetween,
    hLast, hLookup, hLookup'⟩ := unowed_run
  have hReached := Emits.then (Emits.then (Emits.then (Emits.then (Emits.then
    (.refl 30 unowed) h₀) h₁) h₂) h₃) h₄
  refine ⟨{
    before := "Xx"
    left := 24
    atFirst := s₅
    reached := hReached
    first := "y"
    firstItem := .visible hRest hLookup (by decide) (by decide)
    piece := "y"
    behind := s₆
    firstRead := hFirst.2
    blanks := ['\n', '\n']
    spacing := by decide
    notAdjacent := by simp
    between := ""
    left' := 21
    atSecond := s₈
    passed := Emits.then (Emits.then (.refl 24 s₆) h₆) h₇
    blanksRead := by rw [hBetween, hLast]; rfl
    second := "b"
    secondItem := .visible hLast hLookup' (by decide) (by decide) }, rfl, rfl, rfl,
    unowed_expanded, ?_⟩
  rintro lead gap tail hText ⟨c, hMem, -⟩
  have hChars : ['y', 'b', '\n', '\n'] =
      lead.toList ++ 'y' :: (gap.toList ++ 'b' :: tail.toList) := by
    have hLists := congrArg String.toList hText
    simp only [String.toList_append] at hLists
    simpa using hLists
  cases hLead : lead.toList with
  | cons d more =>
      rw [hLead, List.cons_append, List.cons.injEq] at hChars
      have hY : 'y' ∈ ['b', '\n', '\n'] := by
        rw [hChars.2]
        simp
      exact absurd hY (by decide)
  | nil =>
      rw [hLead, List.nil_append, List.cons.injEq] at hChars
      cases hGap : gap.toList with
      | nil =>
          rw [hGap] at hMem
          cases hMem
      | cons d more =>
          rw [hGap, List.cons_append, List.cons.injEq] at hChars
          have hB : 'b' ∈ ['\n', '\n'] := by
            rw [hChars.2.2]
            simp
          exact absurd hB (by decide)

end Expand

end MacroMarkup
