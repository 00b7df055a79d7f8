import MacroMarkup.Proofs.Expand.Fuel
import MacroMarkup.Proofs.Expand.Growth
import MacroMarkup.Proofs.Expand.Steps
import MacroMarkup.Proofs.Registry.Match

/-! Two runs side by side. The second reads the text of the first with blanks in
front of one closing brace. Up to that brace the two do the same. -/
namespace MacroMarkup

def ExpandState.moved (s : ExpandState) (reader : Reader) (engine : AutoBreak) : ExpandState :=
  s.update fun document => { document with reader, autobreak := engine }

namespace Expand

/-- The text from a closing brace on, and the same text behind blanks; or no such
brace at all. -/
inductive Gap : List Char → List Char → Prop where
  | none : Gap [] []
  | blanks {blanks : List Char} (after : List Char) : Text.Spacing blanks →
      Gap ('\x7d' :: after) (blanks ++ '\x7d' :: after)

/-- Reading stays before the gap, or there is none, or it comes behind the gap. -/
theorem Gap.reach {left right : List Char} (h : Gap left right) (text : List Char) (count : Nat) :
    count ≤ text.length ∨ left = right ∨ ((text ++ left).drop count).length < left.length := by
  cases h with
  | none => exact .inr (.inl rfl)
  | blanks after hBlanks =>
      rw [List.length_drop, List.length_append, List.length_cons]
      omega

/-- What else the two runs have in common: how their paragraph engines relate, and
the rows that they stand in. -/
structure Tie where
  engines : AutoBreak → AutoBreak → Prop
  rows : Reader → Reader → Prop
  advance {reader reader' : Reader} {text : List Char} : rows reader reader' →
    text <+: reader.rest → text <+: reader'.rest →
    rows (reader.advance text.length) (reader'.advance text.length)
  restore {engine engine' : AutoBreak} (enabled : Bool) : engines engine engine' →
    engines (engine.restore enabled) (engine'.restore enabled)

/-- The same engine, in rows that are indented alike. -/
def Tie.same : Tie :=
  { engines := Eq
    rows := Reader.Aligned
    advance := fun h hRest hRest' => h.advance hRest hRest'
    restore := fun _ h => congrArg _ h }

/-- An engine that lacks some blanks, in any row. -/
def Tie.lacking (blanks : List Char) : Tie :=
  { engines := fun engine engine' => engine' = engine.behindBlanks blanks
    rows := fun _ _ => True
    advance := fun _ _ _ => trivial
    restore := fun _ h => by rw [h, AutoBreak.restore_behindBlanks] }

/-- The second state is the first on another text. Before the gap the two texts
agree. -/
inductive Abreast (tie : Tie) (left right : List Char) (s : ExpandState) : ExpandState → Prop where
  | intro (reader : Reader) (engine : AutoBreak) (text : List Char) :
      tie.engines s.engine engine → tie.rows s.document.reader reader → s.rest = text ++ left →
      reader.rest = text ++ right → Abreast tie left right s (s.moved reader engine)

variable {tie : Tie} {left right : List Char} {s s' : ExpandState}

/-- With the same engine the two states differ only in what they read. -/
theorem Abreast.same (h : Abreast .same left right s s') :
    ∃ reader text, s' = s.moved reader s.engine ∧ s.document.reader.Aligned reader ∧
      s.rest = text ++ left ∧ reader.rest = text ++ right := by
  obtain ⟨reader, engine, text, hEngine, hAligned, hRest, hRest'⟩ := h
  obtain rfl : s.engine = engine := hEngine
  exact ⟨reader, text, rfl, hAligned, hRest, hRest'⟩

/-- Both read the same characters, or the first comes behind the gap. -/
theorem Abreast.advance (h : Abreast tie left right s s') (hGap : Gap left right) (count : Nat) :
    (s.advance count).rest.length < left.length ∨
      Abreast tie left right (s.advance count) (s'.advance count) := by
  cases h with
  | intro reader engine text hEngine hAligned hRest hRest' =>
      have hReader : s.document.reader.rest = text ++ left := hRest
      by_cases hWithin : count ≤ text.length
      · have hLength : (text.take count).length = count := List.length_take_of_le hWithin
        have hAhead : tie.rows (s.document.reader.advance count) (reader.advance count) := by
          have hTake := List.take_prefix count text
          have hHere : text.take count <+: s.document.reader.rest := by
            rw [hReader]
            exact hTake.trans (List.prefix_append _ _)
          have hThere : text.take count <+: reader.rest := by
            rw [hRest']
            exact hTake.trans (List.prefix_append _ _)
          have hSteps := tie.advance hAligned hHere hThere
          rwa [hLength] at hSteps
        refine .inr (.intro (reader.advance count) engine (text.drop count) hEngine hAhead ?_ ?_)
        · rw [s.rest_advance, hRest, List.drop_append_of_le_length hWithin]
        · rw [reader.rest_advance, hRest', List.drop_append_of_le_length hWithin]
      · cases hGap with
        | none =>
            rw [List.append_nil] at hRest' hReader
            have hAhead : tie.rows (s.document.reader.advance count) (reader.advance count) := by
              have hHere : text <+: s.document.reader.rest := ⟨[], by rw [List.append_nil, hReader]⟩
              have hThere : text <+: reader.rest := ⟨[], by rw [List.append_nil, hRest']⟩
              have hSteps := tie.advance hAligned hHere hThere
              have hFull : s.document.reader.advance count = s.document.reader.advance text.length := by
                rw [Reader.advance_of_length_le (by rw [hReader]; omega), hReader]
              have hFull' : reader.advance count = reader.advance text.length := by
                rw [Reader.advance_of_length_le (by rw [hRest']; omega), hRest']
              rwa [hFull, hFull']
            refine .inr (.intro (reader.advance count) engine [] hEngine hAhead ?_ ?_)
            · rw [s.rest_advance, hRest, List.append_nil, List.drop_of_length_le (by omega)]
              rfl
            · rw [reader.rest_advance, hRest', List.drop_of_length_le (by omega)]
              rfl
        | blanks after hBlanks =>
            refine .inl ?_
            rw [s.rest_advance, hRest, List.length_drop, List.length_append]
            simp only [List.length_cons]
            omega

/-- The two texts end together. -/
theorem Abreast.atEnd (h : Abreast tie left right s s') (hGap : Gap left right)
    (hRest : s.rest = []) : s'.rest = [] := by
  obtain ⟨reader, engine, text, -, -, hText, hText'⟩ := h
  rw [hText, List.append_eq_nil_iff] at hRest
  obtain ⟨rfl, rfl⟩ := hRest
  cases hGap
  exact hText'

/-- Both go on with the same character, except where the gap begins. -/
theorem Abreast.head (h : Abreast tie left right s s') (hGap : Gap left right) {c : Char}
    {after : List Char} (hRest : s.rest = c :: after) :
    (c = '\x7d' ∧ s.rest = left) ∨ ∃ after', s'.rest = c :: after' := by
  obtain ⟨reader, engine, text, -, -, hText, hText'⟩ := h
  cases text with
  | cons d text =>
      rw [hText, List.cons_append, List.cons.injEq] at hRest
      exact .inr ⟨text ++ right, by rw [← hRest.1]; exact hText'⟩
  | nil =>
      rw [List.nil_append] at hText hText'
      cases hGap with
      | none =>
          rw [hText] at hRest
          cases hRest
      | blanks after hBlanks =>
          rw [hText, List.cons.injEq] at hRest
          exact .inl ⟨hRest.1.symm, hText⟩

theorem Abreast.depth (h : Abreast tie left right s s') :
    s'.document.depth = s.document.depth := by
  obtain ⟨reader, engine, text, -, -, -, -⟩ := h
  rfl

theorem Abreast.target (h : Abreast tie left right s s') :
    s'.document.target = s.document.target := by
  obtain ⟨reader, engine, text, -, -, -, -⟩ := h
  rfl

theorem Abreast.withDepth (h : Abreast tie left right s s') (depth : Nat) :
    Abreast tie left right (s.withDepth depth) (s'.withDepth depth) := by
  obtain ⟨reader, engine, text, hEngine, hAligned, hRest, hRest'⟩ := h
  exact .intro reader engine text hEngine hAligned hRest hRest'

/-- A finished invocation counts the same in both. -/
theorem Abreast.exited (h : Abreast tie left right s s') (firings : Nat) :
    Abreast tie left right (s.exited firings) (s'.exited firings) := by
  obtain ⟨reader, engine, text, hEngine, hAligned, hRest, hRest'⟩ := h
  exact .intro reader engine text hEngine hAligned hRest hRest'

theorem Abreast.resume (h : Abreast tie left right s s') (enabled : Bool) :
    Abreast tie left right (s.resume enabled) (s'.resume enabled) := by
  obtain ⟨reader, engine, text, hEngine, hAligned, hRest, hRest'⟩ := h
  exact .intro reader _ text (tie.restore enabled hEngine) hAligned hRest hRest'

/-- What comes next in the first text comes next in the second, except where it
takes the gap in. -/
theorem Abreast.prefix_of (h : Abreast tie left right s s') (hGap : Gap left right)
    {spelling : List Char} (hPrefix : spelling <+: s.rest) :
    (s.advance spelling.length).rest.length < left.length ∨ spelling <+: s'.rest := by
  obtain ⟨reader, engine, text, -, -, hText, hText'⟩ := h
  have hRight : (s.moved reader engine).rest = text ++ right := hText'
  rw [hText] at hPrefix
  rw [s.rest_advance, hRight, hText]
  rcases hGap.reach text spelling.length with hWithin | rfl | hLost
  · exact .inr ((List.prefix_of_prefix_length_le hPrefix (List.prefix_append _ _) hWithin).trans
      (List.prefix_append _ _))
  · exact .inr hPrefix
  · exact .inl hLost

/-- A text without blanks that comes next in the second text does so in the first. -/
theorem Abreast.prefix_back (h : Abreast tie left right s s') (hGap : Gap left right)
    {spelling : List Char} (hSpelling : ∀ c ∈ spelling, c ≠ ' ' ∧ c ≠ '\n')
    (hPrefix : spelling <+: s'.rest) : spelling <+: s.rest := by
  obtain ⟨reader, engine, text, -, -, hText, hText'⟩ := h
  have hRight : (s.moved reader engine).rest = text ++ right := hText'
  rw [hRight] at hPrefix
  rw [hText]
  cases hGap with
  | none => exact hPrefix
  | @blanks blanks after hBlanks =>
      by_cases hWithin : spelling.length ≤ text.length
      · exact (List.prefix_of_prefix_length_le hPrefix (List.prefix_append _ _) hWithin).trans
          (List.prefix_append _ _)
      · obtain ⟨more, rfl⟩ : text <+: spelling :=
          List.prefix_of_prefix_length_le (List.prefix_append _ _) hPrefix (by omega)
        rw [List.prefix_append_right_inj] at hPrefix ⊢
        cases blanks with
        | nil => exact hPrefix
        | cons b blanks =>
            cases more with
            | nil => exact List.nil_prefix
            | cons c more =>
                obtain ⟨rfl, -⟩ := List.cons_prefix_cons.mp hPrefix
                have hVisible := hSpelling c (by simp)
                rcases hBlanks c (by simp) with hSpace | hBreak
                · exact absurd hSpace hVisible.1
                · exact absurd hBreak hVisible.2

/-- Both find the same invocation, unless the first one takes the gap in. -/
theorem Abreast.lookup? (h : Abreast tie left right s s') (hGap : Gap left right)
    (hBuilt : s.session.registry.Built) :
    (∃ length handler, s.session.registry.lookup? s.rest = some (length, handler) ∧
      (s.advance length).rest.length < left.length) ∨
    s'.session.registry.lookup? s'.rest = s.session.registry.lookup? s.rest := by
  obtain ⟨reader, engine, text, -, -, hText, hText'⟩ := h
  have hRight : (s.moved reader engine).rest = text ++ right := hText'
  have hSession : (s.moved reader engine).session = s.session := rfl
  rw [hRight, hSession, hText]
  cases hGap with
  | none => exact .inr rfl
  | @blanks blanks after hBlanks =>
      by_cases hWithin : ∀ length handler,
          s.session.registry.lookup? (text ++ '\x7d' :: after) = some (length, handler) →
            length ≤ text.length
      · exact .inr (hBuilt.lookup?_spaced hBlanks hWithin)
      · push Not at hWithin
        obtain ⟨length, handler, hLookup, hLong⟩ := hWithin
        refine .inl ⟨length, handler, hLookup, ?_⟩
        rw [s.rest_advance, hText, List.length_drop, List.length_append]
        simp only [List.length_cons]
        omega

/-- A result of the first state is one of the second as well, unless the first
has read on behind the gap. -/
def Follows {α : Type} (tie : Tie) (left right : List Char)
    (s s' : ExpandState) (action : Expand α) : Prop :=
  ∀ a t, outcome action s = (.ok a, t) → t.rest.length < left.length ∨
    ∃ t', outcome action s' = (.ok a, t') ∧ Abreast tie left right t t'

/-- A computation that gives the same results side by side. -/
structure Steady {α : Type} (tie : Tie) (left right : List Char)
    (action : Expand α) : Prop where
  keeps : Keeps Calm Calm action
  follows {s s' : ExpandState} : s.session.registry.Built → Abreast tie left right s s' →
    Follows tie left right s s' action

variable {α β : Type}

/-- What follows in the first step follows in the second, which only reads on. -/
theorem Follows.bind {action : Expand α} {next : α → Expand β}
    (h : Follows tie left right s s' action) (hBuilt : s.session.registry.Built)
    (hKeeps : Keeps Calm Calm action) (hNext : ∀ a, Steady tie left right (next a)) :
    Follows tie left right s s' (action >>= next) := by
  intro b t hOutcome
  obtain ⟨a, middle, hFirst, hRest⟩ := outcome_bind_ok hOutcome
  rcases h a middle hFirst with hLost | ⟨middle', hFirst', hMiddle⟩
  · have hOnward := ((hNext a).keeps.ok hRest).1.rest.length_le
    exact .inl (by omega)
  · rw [outcome_bind_of_ok hFirst']
    exact (hNext a).follows ((hKeeps.ok hFirst).2 hBuilt).1 hMiddle b t hRest

namespace Steady

theorem bind {action : Expand α} {next : α → Expand β} (h : Steady tie left right action)
    (hNext : ∀ a, Steady tie left right (next a)) :
    Steady tie left right (action >>= next) where
  keeps := calm.bind h.keeps fun a => (hNext a).keeps
  follows hBuilt hAbreast := (h.follows hBuilt hAbreast).bind hBuilt h.keeps hNext

theorem pure (a : α) : Steady tie left right (Pure.pure a : Expand α) where
  keeps := calm.pure a
  follows _ hAbreast := by
    intro b t hOutcome
    cases hOutcome
    exact .inr ⟨_, rfl, hAbreast⟩

theorem fail (cause : ErrorCause) : Steady tie left right (Expand.fail cause : Expand α) where
  keeps := calm.fail cause
  follows _ _ := by
    intro a t hOutcome
    cases hOutcome

theorem throw (failure : Failure) :
    Steady tie left right (MonadExcept.throw failure : Expand α) where
  keeps := calm.throw failure
  follows _ _ := by
    intro a t hOutcome
    cases hOutcome

theorem located (result : Except ErrorCause α) :
    Steady tie left right (Expand.located result) := by
  cases result with
  | ok a => exact pure a
  | error cause => exact fail cause

/-- Such a result, when what is done with it is steady only if it is there. -/
theorem locatedBind {result : Except ErrorCause α} {next : α → Expand β}
    (hNext : ∀ a, result = .ok a → Steady tie left right (next a)) :
    Steady tie left right (Expand.located result >>= next) where
  keeps := calm.locatedBind fun a h => (hNext a h).keeps
  follows := by
    intro s s' hBuilt hAbreast b t hOutcome
    rw [outcome_bind, outcome_located] at hOutcome
    rw [outcome_bind, outcome_located]
    cases result with
    | ok a => exact (hNext a rfl).follows hBuilt hAbreast b t hOutcome
    | error cause => cases hOutcome

theorem advance (hGap : Gap left right) (count : Nat) :
    Steady tie left right (Expand.advance count) where
  keeps := calm.advance count
  follows _ hAbreast := by
    intro a t hOutcome
    cases hOutcome
    rcases hAbreast.advance hGap count with hLost | hAhead
    · exact .inl hLost
    · exact .inr ⟨_, rfl, hAhead⟩

theorem mapM {action : β → Expand α} {items : List β}
    (hAction : ∀ b ∈ items, Steady tie left right (action b)) :
    Steady tie left right (items.mapM action) := by
  induction items with
  | nil => exact pure _
  | cons item items ih =>
      rw [List.mapM_cons]
      exact (hAction item (by simp)).bind fun _ =>
        (ih fun b hMem => hAction b (List.mem_cons_of_mem item hMem)).bind fun _ => pure _

/-- What a computation uses of a document is often the same in both. -/
theorem bindDocument {next : DocumentState → Expand α}
    (hSame : ∀ document reader engine,
      next { document with reader := reader, autobreak := engine } = next document)
    (hNext : ∀ document, Steady tie left right (next document)) :
    Steady tie left right (Expand.document >>= next) where
  keeps := calm.bind calm.document fun document => (hNext document).keeps
  follows := by
    intro s s' hBuilt hAbreast a t hOutcome
    rw [outcome_bind_of_ok (outcome_document s)] at hOutcome
    rw [outcome_bind_of_ok (outcome_document s')]
    have hNextSame : next s'.document = next s.document := by
      obtain ⟨reader, engine, text, -, -, -, -⟩ := hAbreast
      exact hSame s.document reader engine
    rw [hNextSame]
    exact (hNext s.document).follows hBuilt hAbreast a t hOutcome

/-- What happens one level deeper happens so in both. -/
theorem deeper (env : Env) {action : Expand α} {next : α → Expand β}
    (hAction : Steady tie left right action)
    (hNext : ∀ a, Steady tie left right (next a)) :
    Steady tie left right (do
      Expand.descend env
      let a ← action
      Expand.ascend
      next a) where
  keeps := calm.deeper env hAction.keeps fun a => (hNext a).keeps
  follows := by
    intro s s' hBuilt hAbreast b t hOutcome
    have hDepth := hAbreast.depth
    rw [outcome_bind, outcome_descend] at hOutcome
    by_cases hLimit : env.options.maxDepth < s.document.depth + 1
    · rw [if_pos hLimit] at hOutcome
      cases hOutcome
    · rw [if_neg hLimit] at hOutcome
      dsimp only at hOutcome
      obtain ⟨a, middle, hInner, hRest⟩ := outcome_bind_ok hOutcome
      rw [outcome_bind_of_ok (outcome_ascend middle)] at hRest
      have hDeeper : Abreast tie left right (s.withDepth (s.document.depth + 1))
          (s'.withDepth (s'.document.depth + 1)) := by
        rw [hDepth]
        exact hAbreast.withDepth _
      rw [outcome_bind, outcome_descend, hDepth, if_neg hLimit]
      rw [hDepth] at hDeeper
      dsimp only
      have hBuiltDeeper : (s.withDepth (s.document.depth + 1)).session.registry.Built := hBuilt
      have hBuiltBack : (middle.withDepth (middle.document.depth - 1)).session.registry.Built :=
        ((hAction.keeps.ok hInner).2 hBuiltDeeper).1
      rcases hAction.follows hBuiltDeeper hDeeper a middle hInner with
        hLost | ⟨middle', hInner', hMiddle⟩
      · have hOnward := ((hNext a).keeps.ok hRest).1.rest.length_le
        change t.rest.length ≤ middle.rest.length at hOnward
        exact .inl (by omega)
      · rw [outcome_bind_of_ok hInner', outcome_bind_of_ok (outcome_ascend middle'),
          hMiddle.depth]
        exact (hNext a).follows hBuiltBack (hMiddle.withDepth _) b t hRest

end Steady

end Expand

end MacroMarkup
